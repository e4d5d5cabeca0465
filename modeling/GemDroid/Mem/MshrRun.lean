import GemDroid.Lib.Line
import GemDroid.Lib.Outcome
import GemDroid.Lib.Run
import GemDroid.Mem.Mshr

/-! One register over whole runs: its target lists, their flags and the order of service. -/

namespace GemDroid

/-- What the cache knows a target by: its place in the cache's order, and its source. -/
structure TargetId where
  order : Nat
  source : Source
  deriving DecidableEq, Repr

/-- The identity of a target, which no conversion changes. -/
def Target.id (target : Target) : TargetId :=
  ⟨target.order, target.source⟩

namespace TargetList

/-- The identities of the targets of a list. -/
def ids (targets : TargetList) : List TargetId :=
  targets.list.map Target.id

end TargetList

namespace MemCmd

/--
A request that reaches a cache on a bus.

The two failed forms are never sent, and what neither reads, writes nor upgrades is left to the
simulator's own ends.
-/
def onBus (cmd : MemCmd) : Bool :=
  cmd.isRequest && (cmd.isRead || cmd.isWrite || cmd.isUpgrade) && cmd != .storeCondFailReq

/-- A conditional store that lost its copy of the block while it waited. -/
def failed (cmd : MemCmd) : Bool :=
  cmd == .scUpgradeFailReq || cmd == .storeCondFailReq

/-- The responses that a request can get from below. -/
def answers (sent resp : MemCmd) : Bool :=
  resp == sent.responseCommand ||
    -- A weak upgrade may fail, and a read may come with an invalidation.
    (sent == .scUpgradeReq && resp == .upgradeFailResp) ||
    (sent.responseCommand == .readResp && resp == .readRespWithInvalidate) ||
    resp == .invalidDestError || resp == .badAddressError

/--
The command of the packet that goes out for a target, or nothing when the target is forwarded
as it is (`getBusPacket`).
-/
def busCmd (uncacheable blkValid needsExclusive : Bool) (cmd : MemCmd) :
    Except CacheFault (Option MemCmd) :=
  if uncacheable then .ok none
  else if !blkValid && (cmd == .writeback || cmd.isUpgrade) then .ok none
  else if !cmd.needsResponse then .error .needsNoResponse
  else if blkValid then
    if needsExclusive then
      .ok (some (if cmd.isLLSC then .scUpgradeReq else .upgradeReq))
    else .error .needlessRequest
  else .ok (some (if needsExclusive then .readExReq else .readReq))

end MemCmd

/-- A register with the command it has sent, and a record of the targets that came and went. -/
structure MshrSystem where
  mshr : Mshr
  allocated : Bool
  order : Nat
  sent : Option MemCmd
  /-- The targets in the order in which they were added. -/
  added : List TargetId
  /-- The targets in the order in which they were served. -/
  popped : List TargetId
  /-- The snoops that were added before targets that had been deferred, with these targets. -/
  overtaken : List (Nat × Nat)

/-- What the cache does with one register. -/
inductive MshrEvent
  | allocate (pkt : Packet) (addr : Addr) (size whenReady : Nat)
  | allocateTarget (pkt : Packet) (whenReady : Nat)
  | handleSnoop (pkt : Packet) (now : Nat)
  /-- The cache below starts or stops to buffer the request. -/
  | downstreamPending (pending : Bool)
  /-- The register is selected, its request is refused by the bus or sent with these flags. -/
  | getTimingPacket (blkValid accepted shared memInhibit : Bool) (now : Nat)
  /-- A selected prefetch is served by a cache above. -/
  | prefetchHit (shared memInhibit : Bool)
  /-- A selected prefetch is squashed by a cache above. -/
  | prefetchSquashed (now : Nat)
  | recvTimingResp (resp : MemCmd) (shared : Bool) (now : Nat)

namespace MshrSystem

/-- A register that was never used. -/
def start : MshrSystem :=
  { mshr := .blank, allocated := false, order := 0, sent := none, added := [], popped := [],
    overtaken := [] }

/-- Whether a response brings a copy of the block (`is_fill`). -/
def isFill (resp : MemCmd) (mshr : Mshr) : Bool :=
  !mshr.isForward && (resp.isRead || resp == .upgradeResp)

/-- The assertions on one target when a response arrives (the loop of `recvTimingResp`). -/
def serve (fill : Bool) (resp : MemCmd) (postInvalidate : Bool) (target : Target) :
    Except CacheFault Unit :=
  let cmd := target.pkt.cmd
  match target.source with
  | .fromCPU =>
    if fill then
      -- What is neither a read nor a write must be an upgrade.
      if cmd == .swapReq || cmd.isWrite || cmd.isRead || cmd.isUpgrade then .ok ()
      else .error .notUpgrade
    else if resp = .upgradeFailResp then
      if cmd == .storeCondReq || cmd == .storeCondFailReq || cmd == .scUpgradeFailReq then .ok ()
      else .error .failedUpgradeTarget
    else .ok ()
  | .fromPrefetcher => if cmd = .hardPFReq then .ok () else .error .notPrefetch
  | .fromSnoop =>
    if resp.isError then .error .snoopError
    else if resp.isInvalidate && !postInvalidate then .error .lostInvalidation
    else .ok ()

/-- Free a register without targets (`MSHRQueue::deallocate`). -/
def deallocate (s : MshrSystem) : Except CacheFault MshrSystem := do
  let mshr ← s.mshr.deallocate
  return { s with mshr := mshr, allocated := false }

/-- Make deferred targets pending again, or free the register (the end of `recvTimingResp`). -/
def finish (now : Nat) (s : MshrSystem) : Except CacheFault MshrSystem :=
  match s.mshr.promoteDeferredTargets now with
  | .error e => .error e
  | .ok (mshr, true) =>
    -- The entry goes back to the ready list (`markPending`).
    if mshr.inService then .ok { s with mshr := { mshr with inService := false } }
    else .error .notInService
  | .ok (mshr, false) => { s with mshr := mshr }.deallocate

/-- A response that brings a copy of the block may let deferred targets in. -/
def filled (resp : MemCmd) (shared : Bool) (mshr : Mshr) : Except CacheFault Mshr :=
  if isFill resp mshr then mshr.handleFill shared else .ok mshr

/-- All targets are served. -/
def drained (s : MshrSystem) : MshrSystem :=
  { s with
    popped := s.popped ++ s.mshr.targets.ids
    mshr := { s.mshr with targets := { s.mshr.targets with list := [] } } }

/-- Serve all targets and go on with the deferred ones (`recvTimingResp`). -/
def recvTimingResp (resp : MemCmd) (shared : Bool) (now : Nat) (s : MshrSystem) :
    Except CacheFault MshrSystem :=
  if s.mshr.targets.list.isEmpty then .error .noTargets
  else do
    let mshr ← filled resp shared s.mshr
    mshr.targets.list.forM (serve (isFill resp s.mshr) resp mshr.postInvalidate)
    (drained { s with mshr := mshr, sent := none }).finish now

/-- Send a packet; an entry that expects no response is done (`MSHRQueue::markInService`). -/
def markInService (sent : MemCmd) (shared memInhibit : Bool) (s : MshrSystem) :
    Except CacheFault MshrSystem := do
  let (mshr, done) ← s.mshr.markInService shared memInhibit
  if done then
    deallocate { s with mshr := mshr, popped := s.popped ++ s.mshr.targets.ids.take 1 }
  else return { s with mshr := mshr, sent := some sent }

/-- Select the register and send what its first target asks for (`getTimingPacket`). -/
def getTimingPacket (blkValid accepted shared memInhibit : Bool) (now : Nat) (s : MshrSystem) :
    Except CacheFault MshrSystem :=
  match s.mshr.targets.list.head? with
  | none => .error .noTargets
  | some target =>
    let cmd := target.pkt.cmd
    -- A conditional store that has failed is answered at once.
    if cmd.failed then s.recvTimingResp .upgradeFailResp false now
    else if s.mshr.isForwardNoResponse then
      if accepted then s.markInService cmd shared memInhibit else .ok s
    else do
      let bus ← cmd.busCmd target.pkt.req.isUncacheable blkValid s.mshr.targets.needsExclusive
      let s := { s with mshr := { s.mshr with isForward := bus.isNone } }
      if accepted then s.markInService (bus.getD cmd) shared memInhibit else .ok s

/-- Drop the first target; the register is freed with its last one (`forceDeallocateTarget`). -/
def forceDeallocateTarget (now : Nat) (s : MshrSystem) : Except CacheFault MshrSystem :=
  if s.mshr.targets.list.isEmpty then .error .noTargets
  else
    let s := { s with
      mshr := s.mshr.popTarget
      popped := s.popped ++ s.mshr.targets.ids.take 1 }
    if s.mshr.targets.list.isEmpty then
      match s.mshr.promoteDeferredTargets now with
      | .error e => .error e
      | .ok (mshr, true) => .ok { s with mshr := mshr }
      | .ok (mshr, false) => { s with mshr := mshr }.deallocate
    else .ok s

/-- Add a target from the CPU side, or a prefetch, to the record. -/
def record (source : Source) (mshr : Mshr) (s : MshrSystem) : MshrSystem :=
  { s with mshr := mshr, order := s.order + 1, added := s.added ++ [⟨s.order, source⟩] }

/-- A request that is buffered below is converted there by the snoop that comes from there. -/
def sentAfter (pkt : Packet) (s : MshrSystem) : Option MemCmd :=
  if s.mshr.precededBy pkt && pkt.cmd.needsExclusive then s.sent.map MemCmd.replaceUpgrade
  else s.sent

/-- Let the register see a snoop; a copy of the packet may become a target. -/
def handleSnoop (pkt : Packet) (now : Nat) (s : MshrSystem) : MshrSystem :=
  let mshr := (s.mshr.handleSnoop pkt now s.order).1
  let s := { s with sent := s.sentAfter pkt }
  if s.mshr.targets.list.length < mshr.targets.list.length then
    { s.record .fromSnoop mshr with
      overtaken := s.overtaken ++ mshr.deferredTargets.list.map fun t => (s.order, t.order) }
  else { s with mshr := mshr, order := s.order + 1 }

/-- When the cache performs an operation. -/
def enabled (s : MshrSystem) : MshrEvent → Bool
  | .allocate pkt _ _ _ => !s.allocated && pkt.cmd.onBus
  | .allocateTarget pkt _ => s.allocated && pkt.cmd.onBus
  | .handleSnoop pkt _ => s.allocated && pkt.cmd.onBus
  | .downstreamPending _ => s.allocated
  | .getTimingPacket .. => s.allocated && !s.mshr.inService
  | .prefetchHit .. | .prefetchSquashed _ =>
    s.allocated && !s.mshr.inService &&
      s.mshr.targets.list.head?.any fun t => t.pkt.cmd == .hardPFReq
  | .recvTimingResp resp _ _ =>
    s.allocated && s.mshr.inService && s.sent.any fun sent => sent.answers resp

/-- What an operation does. -/
def perform (s : MshrSystem) : MshrEvent → Except CacheFault MshrSystem
  | .allocate pkt addr size whenReady => do
    let mshr ← s.mshr.allocate addr size pkt whenReady s.order
    let source := if pkt.cmd = .hardPFReq then Source.fromPrefetcher else .fromCPU
    return { s.record source mshr with allocated := true }
  | .allocateTarget pkt whenReady => do
    let mshr ← s.mshr.allocateTarget pkt whenReady s.order
    return s.record .fromCPU mshr
  | .handleSnoop pkt now => .ok (s.handleSnoop pkt now)
  | .downstreamPending pending =>
    .ok { s with mshr := { s.mshr with downstreamPending := pending } }
  | .getTimingPacket blkValid accepted shared memInhibit now =>
    s.getTimingPacket blkValid accepted shared memInhibit now
  | .prefetchHit shared memInhibit => s.markInService .hardPFReq shared memInhibit
  | .prefetchSquashed now => s.forceDeallocateTarget now
  | .recvTimingResp resp shared now => s.recvTimingResp resp shared now

/-- One operation; a failed assertion ends the run. -/
def step (s : MshrSystem) (e : MshrEvent) : Option MshrSystem :=
  if s.enabled e then (s.perform e).toOption else none

end MshrSystem

namespace MemCmd

/-- A command that has to be converted when the copy of the block is taken away. -/
def convertible (cmd : MemCmd) : Bool :=
  cmd == .upgradeReq || cmd == .scUpgradeReq || cmd == .storeCondReq

theorem replaceUpgrade_attributes (cmd : MemCmd) :
    cmd.replaceUpgrade.needsExclusive = cmd.needsExclusive ∧
      cmd.replaceUpgrade.convertible = false := by
  cases cmd <;> decide

theorem isUpgrade_of_convertible {cmd : MemCmd} (converts : cmd.convertible = true) :
    (cmd.isUpgrade || cmd == .storeCondReq) = true := by
  revert converts
  cases cmd <;> decide

end MemCmd

namespace TargetList

/--
The flags of a list say what its targets need.

A snooped packet is a request of another cache, and counts for neither flag.
-/
structure FlagsOk (targets : TargetList) : Prop where
  needsExclusive : ∀ t ∈ targets.list, t.source ≠ .fromSnoop →
    t.pkt.cmd.needsExclusive = true → targets.needsExclusive = true
  hasUpgrade : ∀ t ∈ targets.list, t.source ≠ .fromSnoop →
    t.pkt.cmd.convertible = true → targets.hasUpgrade = true

variable {targets : TargetList}

theorem flagsOk_nil {targets : TargetList} (none : targets.list = []) : targets.FlagsOk := by
  constructor <;> simp [none]

theorem FlagsOk.add (ok : targets.FlagsOk) (pkt : Packet) (readyTime order : Nat)
    (source : Source) : (targets.add pkt readyTime order source).FlagsOk := by
  -- An old target set the flags before, and a new one sets them now.
  constructor
  · intro t member own exclusive
    rcases List.mem_append.mp member with old | new
    · simp [TargetList.add, ok.needsExclusive t old own exclusive]
    · obtain rfl := List.mem_singleton.mp new
      simp [TargetList.add, exclusive, show source ≠ .fromSnoop from own]
  · intro t member own converts
    rcases List.mem_append.mp member with old | new
    · simp [TargetList.add, ok.hasUpgrade t old own converts]
    · obtain rfl := List.mem_singleton.mp new
      have sets := MemCmd.isUpgrade_of_convertible converts
      simp only at sets
      simp only [TargetList.add, sets]
      simp [show source ≠ .fromSnoop from own]

theorem FlagsOk.replaceUpgrades (ok : targets.FlagsOk) : targets.replaceUpgrades.FlagsOk := by
  unfold TargetList.replaceUpgrades
  split
  case isFalse => exact ok
  case isTrue =>
    constructor
    · intro t member own exclusive
      obtain ⟨before, inside, rfl⟩ := List.mem_map.mp member
      refine ok.needsExclusive before inside own ?_
      rw [← (MemCmd.replaceUpgrade_attributes _).1]
      exact exclusive
    · intro t member own converts
      obtain ⟨before, inside, rfl⟩ := List.mem_map.mp member
      have never := (MemCmd.replaceUpgrade_attributes before.pkt.cmd).2
      exact absurd converts (by simp [Target.replaceUpgrade, Packet.replaceUpgrade, never])

theorem FlagsOk.sublist (ok : targets.FlagsOk) {list : List Target}
    (fewer : ∀ t ∈ list, t ∈ targets.list) :
    FlagsOk { targets with list := list } :=
  ⟨fun t member => ok.needsExclusive t (fewer t member),
    fun t member => ok.hasUpgrade t (fewer t member)⟩

@[simp] theorem add_ids (pkt : Packet) (readyTime order : Nat) (source : Source) :
    (targets.add pkt readyTime order source).ids = targets.ids ++ [⟨order, source⟩] := by
  simp [ids, add, Target.id]

@[simp] theorem replaceUpgrades_ids : targets.replaceUpgrades.ids = targets.ids := by
  unfold replaceUpgrades
  split
  · simp only [ids, List.map_map]
    rfl
  · rfl

theorem replaceUpgrades_length : targets.replaceUpgrades.list.length = targets.list.length := by
  unfold replaceUpgrades
  split <;> simp

end TargetList

namespace Mshr

/-- A snoop converts targets or adds itself as the last one, and leaves the rest alone. -/
theorem handleSnoop_lists (pkt : Packet) (now order : Nat) (mshr : Mshr) :
    (mshr.handleSnoop pkt now order).1.inService = mshr.inService ∧
      ((mshr.handleSnoop pkt now order).1.deferredTargets = mshr.deferredTargets ∨
        (mshr.handleSnoop pkt now order).1.deferredTargets =
          mshr.deferredTargets.replaceUpgrades) ∧
      ((mshr.handleSnoop pkt now order).1.targets = mshr.targets ∨
        (mshr.handleSnoop pkt now order).1.targets = mshr.targets.replaceUpgrades ∨
        (mshr.handleSnoop pkt now order).1.targets =
          mshr.targets.add pkt.clearFlags now order .fromSnoop) := by
  -- Only a snoop that comes after the request of the register can become a target.
  have later : ∀ exclusive : Bool,
      (if exclusive then mshr.deferredTargets.replaceUpgrades else mshr.deferredTargets) =
          mshr.deferredTargets ∨
        (if exclusive then mshr.deferredTargets.replaceUpgrades else mshr.deferredTargets) =
          mshr.deferredTargets.replaceUpgrades := by
    intro exclusive
    cases exclusive
    · exact .inl rfl
    · exact .inr rfl
  unfold handleSnoop
  dsimp only
  split
  · split
    · exact ⟨rfl, .inr rfl, .inr (.inl rfl)⟩
    · exact ⟨rfl, .inl rfl, .inl rfl⟩
  · split
    · exact ⟨rfl, later _, .inl rfl⟩
    · refine ⟨rfl, later _, ?_⟩
      cases mshr.pendingDirty || pkt.cmd.isInvalidate
      · exact .inl rfl
      · exact .inr (.inr rfl)

end Mshr

namespace MshrSystem

variable {s t : MshrSystem}

/-- The targets in the order of service: those served, those waiting and those deferred. -/
def line (s : MshrSystem) : List TargetId :=
  s.popped ++ s.mshr.targets.ids ++ s.mshr.deferredTargets.ids

/-- Only targets from the CPU side are deferred, and only snoops overtake them. -/
structure Kinds (s : MshrSystem) : Prop where
  deferred : ∀ id ∈ s.mshr.deferredTargets.ids, id.source = .fromCPU
  overtaken : ∀ pair ∈ s.overtaken,
    ⟨pair.1, .fromSnoop⟩ ∈ s.added ∧ ⟨pair.2, .fromCPU⟩ ∈ s.added

/-- What every register keeps. -/
structure Inv (s : MshrSystem) : Prop where
  free : s.allocated = false →
    s.mshr.targets = .empty ∧ s.mshr.deferredTargets = .empty ∧ s.mshr.inService = false
  deferred : s.mshr.deferredTargets.list ≠ [] → s.mshr.inService = true
  reset : s.mshr.deferredTargets.list = [] → s.mshr.deferredTargets = .empty
  flags : s.mshr.targets.FlagsOk
  deferredFlags : s.mshr.deferredTargets.FlagsOk
  lined : Line.Lined TargetId.order s.line s.added s.order s.overtaken
  kinds : s.Kinds

theorem Kinds.appended (kinds : s.Kinds) (id : TargetId) : ∀ pair ∈ s.overtaken,
    ⟨pair.1, .fromSnoop⟩ ∈ s.added ++ [id] ∧ ⟨pair.2, .fromCPU⟩ ∈ s.added ++ [id] := by
  intro pair member
  obtain ⟨snoop, target⟩ := kinds.overtaken pair member
  exact ⟨List.mem_append_left _ snoop, List.mem_append_left _ target⟩

/-- No fault is excluded here; what is asked is what holds if there is none. -/
def AnyFault : CacheFault → Prop := fun _ => True

open Outcome

theorem allocate_inv (inv : s.Inv) (free : s.allocated = false) (pkt : Packet) (addr : Addr)
    (size whenReady : Nat) :
    Ends AnyFault (s.perform (.allocate pkt addr size whenReady)) Inv := by
  -- Both lists are empty, so the new target is the only one.
  obtain ⟨targets, later, -⟩ := inv.free free
  have lined := inv.lined
  simp only [line, targets, later] at lined
  simp only [perform, Mshr.allocate, targets, later, ends_bind]
  split
  · trivial
  · refine ⟨fun never => absurd never (by simp), ?_, fun _ => ?_, ?_, ?_, ?_, ?_⟩
    · simp [record, TargetList.empty]
    · rfl
    · exact (TargetList.flagsOk_nil rfl).add _ _ _ _
    · exact TargetList.flagsOk_nil rfl
    · simp only [record, line, TargetList.add_ids]
      have appended := lined.append (x := ⟨s.order, if pkt.cmd = .hardPFReq then
        .fromPrefetcher else .fromCPU⟩) rfl
      simpa [TargetList.ids, TargetList.empty] using appended
    · exact ⟨by simp [record, TargetList.ids, TargetList.empty], inv.kinds.appended _⟩

/-- A target from the CPU side goes to the end of the line. -/
theorem allocateTarget_inv (inv : s.Inv) (taken : s.allocated = true) (pkt : Packet)
    (whenReady : Nat) : Ends AnyFault (s.perform (.allocateTarget pkt whenReady)) Inv := by
  have lined := inv.lined
  simp only [perform, Mshr.allocateTarget, ends_bind]
  split
  · trivial
  split
  case isTrue defers =>
    -- A target is deferred only while the request is in service.
    have busy : s.mshr.inService = true := by
      simp only [Mshr.defers, Bool.and_eq_true] at defers
      exact defers.1
    refine ⟨fun free => absurd taken (by simpa [record] using free), fun _ => busy,
      fun none => ?_, inv.flags, inv.deferredFlags.add _ _ _ _, ?_,
      ⟨?_, inv.kinds.appended _⟩⟩
    · simp [record, TargetList.add] at none
    · simp only [record, line, TargetList.add_ids, ← List.append_assoc]
      exact lined.append rfl
    · intro id member
      rw [record, TargetList.add_ids] at member
      rcases List.mem_append.mp member with old | new
      · exact inv.kinds.deferred id old
      · rw [List.mem_singleton.mp new]
  case isFalse stays =>
    -- Nothing is deferred then, so the end of the list is the end of the line.
    have none : s.mshr.deferredTargets = .empty := by
      by_contra some
      have deferred : s.mshr.deferredTargets.list ≠ [] := fun none => some (inv.reset none)
      simp [Mshr.defers, inv.deferred deferred, deferred] at stays
    refine ⟨fun free => absurd taken (by simpa [record] using free), inv.deferred, inv.reset,
      inv.flags.add _ _ _ _, inv.deferredFlags, ?_,
      ⟨inv.kinds.deferred, inv.kinds.appended _⟩⟩
    simp only [line, none] at lined
    simp only [record, line, none, TargetList.add_ids]
    have appended := lined.append (x := ⟨s.order, .fromCPU⟩) rfl
    simpa [TargetList.ids, TargetList.empty] using appended

/-- A snoop is let in before the deferred targets, or leaves no target. -/
theorem handleSnoop_inv (inv : s.Inv) (taken : s.allocated = true) (pkt : Packet) (now : Nat) :
    (s.handleSnoop pkt now).Inv := by
  obtain ⟨busy, later, here⟩ := Mshr.handleSnoop_lists pkt now s.order s.mshr
  let mshr := (s.mshr.handleSnoop pkt now s.order).1
  have laterIds : mshr.deferredTargets.ids = s.mshr.deferredTargets.ids := by
    rcases later with same | converted
    · rw [same]
    · rw [converted, TargetList.replaceUpgrades_ids]
  have laterFlags : mshr.deferredTargets.FlagsOk := by
    rcases later with same | converted
    · exact same ▸ inv.deferredFlags
    · exact converted ▸ inv.deferredFlags.replaceUpgrades
  have laterReset : mshr.deferredTargets.list = [] → mshr.deferredTargets = .empty := by
    intro none
    have before : s.mshr.deferredTargets.list = [] := by
      have ids : s.mshr.deferredTargets.ids = [] := by
        rw [← laterIds, TargetList.ids, none, List.map_nil]
      exact List.map_eq_nil_iff.mp ids
    rcases later with same | converted
    · exact same.trans (inv.reset before)
    · show (s.mshr.handleSnoop pkt now s.order).1.deferredTargets = _
      rw [converted, inv.reset before]
      rfl
  have laterBusy : mshr.deferredTargets.list ≠ [] → mshr.inService = true := by
    intro some
    refine busy.trans (inv.deferred fun none => some ?_)
    have ids : mshr.deferredTargets.ids = [] := by
      rw [laterIds, TargetList.ids, none, List.map_nil]
    exact List.map_eq_nil_iff.mp ids
  have lined := inv.lined
  unfold handleSnoop
  dsimp only
  split
  case isTrue longer =>
    -- The list has grown, so the snoop is its last target.
    have added : mshr.targets = s.mshr.targets.add pkt.clearFlags now s.order .fromSnoop := by
      rcases here with same | converted | added
      · exact absurd longer (by rw [same]; exact lt_irrefl _)
      · refine absurd longer ?_
        rw [converted, TargetList.replaceUpgrades_length]
        exact lt_irrefl _
      · exact added
    have known : ∀ id ∈ s.mshr.deferredTargets.ids, ⟨id.order, .fromCPU⟩ ∈ s.added := by
      intro id member
      rw [← inv.kinds.deferred id member, ← lined.perm.mem_iff]
      exact List.mem_append_right _ member
    refine ⟨fun free => absurd taken (by simpa [record] using free), laterBusy, laterReset,
      ?_, laterFlags, ?_, ⟨?_, ?_⟩⟩
    · show mshr.targets.FlagsOk
      rw [added]
      exact inv.flags.add _ _ _ _
    · show Line.Lined TargetId.order (s.popped ++ mshr.targets.ids ++ mshr.deferredTargets.ids)
        (s.added ++ [⟨s.order, .fromSnoop⟩]) (s.order + 1)
        (s.overtaken ++ mshr.deferredTargets.list.map fun t => (s.order, t.order))
      have pairs : (mshr.deferredTargets.list.map fun t => (s.order, t.order)) =
          mshr.deferredTargets.ids.map fun id => (s.order, id.order) := by
        simp only [TargetList.ids, List.map_map]
        rfl
      rw [pairs, laterIds, added, TargetList.add_ids, ← List.append_assoc, List.append_assoc]
      exact lined.letIn rfl
    · intro id member
      exact inv.kinds.deferred id (laterIds ▸ member)
    · intro pair member
      rcases List.mem_append.mp member with old | new
      · exact inv.kinds.appended _ pair old
      · obtain ⟨target, inside, rfl⟩ := List.mem_map.mp new
        have waiting : target.id ∈ s.mshr.deferredTargets.ids :=
          laterIds ▸ List.mem_map_of_mem inside
        exact ⟨List.mem_append_right _ (List.mem_singleton.mpr rfl),
          List.mem_append_left _ (known _ waiting)⟩
  case isFalse shorter =>
    have kept : mshr.targets.ids = s.mshr.targets.ids ∧ mshr.targets.FlagsOk := by
      rcases here with same | converted | added
      · have unchanged : mshr.targets = s.mshr.targets := same
        rw [unchanged]
        exact ⟨rfl, inv.flags⟩
      · show (s.mshr.handleSnoop pkt now s.order).1.targets.ids = _ ∧ _
        rw [converted, TargetList.replaceUpgrades_ids]
        exact ⟨rfl, converted ▸ inv.flags.replaceUpgrades⟩
      · refine absurd ?_ shorter
        rw [added]
        simp [TargetList.add]
    refine ⟨fun free => absurd taken (by simpa using free), laterBusy, laterReset, kept.2,
      laterFlags, ?_, ⟨fun id member => inv.kinds.deferred id (laterIds ▸ member),
        inv.kinds.overtaken⟩⟩
    show Line.Lined TargetId.order (s.popped ++ mshr.targets.ids ++ mshr.deferredTargets.ids)
      s.added (s.order + 1) s.overtaken
    rw [kept.1, laterIds]
    exact lined.skip

theorem promoteDeferredTargets_none {mshr : Mshr} {now : Nat} (served : mshr.targets.list = [])
    (none : mshr.deferredTargets.list = []) :
    mshr.promoteDeferredTargets now = .ok (mshr, false) := by
  simp [Mshr.promoteDeferredTargets, served, none]

theorem deallocate_inv (inv : s.Inv) (served : s.mshr.targets.list = [])
    (none : s.mshr.deferredTargets = .empty) : Ends AnyFault s.deallocate Inv := by
  have lined := inv.lined
  have reset : s.mshr.targets.resetFlags = .empty := by
    simp [TargetList.resetFlags, TargetList.empty, served]
  simp only [line, none, TargetList.ids, served] at lined
  simp only [deallocate, Mshr.deallocate, served, none, ends_bind]
  refine ⟨fun _ => ⟨reset, rfl, rfl⟩, fun some => absurd rfl some, fun _ => rfl,
    TargetList.flagsOk_nil served, TargetList.flagsOk_nil rfl, ?_,
    ⟨fun id member => by simp [TargetList.ids, TargetList.empty] at member,
      inv.kinds.overtaken⟩⟩
  simpa [line, none, reset, TargetList.ids, TargetList.empty] using lined

theorem finish_inv (inv : s.Inv) (taken : s.allocated = true) (served : s.mshr.targets.list = [])
    (now : Nat) : Ends AnyFault (s.finish now) Inv := by
  -- Deferred targets become the present ones, and none are deferred then.
  by_cases none : s.mshr.deferredTargets.list = []
  · simp only [finish, promoteDeferredTargets_none served none]
    exact deallocate_inv inv served (inv.reset none)
  · have busy := inv.deferred none
    obtain ⟨first, rest, some⟩ := List.exists_cons_of_ne_nil none
    have lined := inv.lined
    simp only [finish, Mshr.promoteDeferredTargets, served, some, List.isEmpty_nil, Bool.not_true,
      Bool.false_eq_true, if_false, List.head?_cons, busy, if_true, ends_ok]
    refine ⟨fun free => absurd taken (by simpa using free), fun more => absurd served more,
      fun _ => by simp [TargetList.resetFlags, TargetList.empty, served], inv.deferredFlags,
      TargetList.flagsOk_nil served, ?_,
      ⟨fun id member => by simp [TargetList.ids, TargetList.resetFlags, served] at member,
        inv.kinds.overtaken⟩⟩
    simp only [line, TargetList.ids, served] at lined
    simpa [line, TargetList.ids, TargetList.resetFlags, served] using lined

theorem drained_inv (inv : s.Inv) (taken : s.allocated = true) {mshr : Mshr}
    (handled : mshr = s.mshr ∨ (mshr.inService = s.mshr.inService ∧
      mshr.targets.list = s.mshr.targets.list ++ s.mshr.deferredTargets.list ∧
      mshr.deferredTargets = .empty)) (sent : Option MemCmd) :
    (drained { s with mshr := mshr, sent := sent }).Inv := by
  -- The line is the same in both cases, cut in another place.
  have lined := inv.lined
  simp only [line] at lined
  rcases handled with rfl | ⟨busy, all, none⟩
  · refine ⟨fun free => absurd taken (by simpa [drained] using free), inv.deferred, inv.reset,
      TargetList.flagsOk_nil rfl, inv.deferredFlags, ?_, ⟨inv.kinds.deferred,
        inv.kinds.overtaken⟩⟩
    simpa [line, drained, TargetList.ids] using lined
  · refine ⟨fun free => absurd taken (by simpa [drained] using free), ?_, fun _ => none,
      TargetList.flagsOk_nil rfl, none ▸ TargetList.flagsOk_nil rfl, ?_, ⟨fun id member => ?_,
        inv.kinds.overtaken⟩⟩
    · intro some
      exact absurd (by simp [drained, none, TargetList.empty]) some
    · simpa [line, drained, TargetList.ids, all, none, TargetList.empty] using lined
    · simp [drained, TargetList.ids, none, TargetList.empty] at member

theorem filled_lists (resp : MemCmd) (shared : Bool) (mshr : Mshr) :
    Ends AnyFault (filled resp shared mshr) fun after =>
      after = mshr ∨ (after.inService = mshr.inService ∧
        after.targets.list = mshr.targets.list ++ mshr.deferredTargets.list ∧
        after.deferredTargets = .empty) := by
  unfold filled
  split
  · unfold Mshr.handleFill
    split
    · split
      · trivial
      · split
        · trivial
        · exact .inr ⟨rfl, rfl, rfl⟩
    · exact .inl rfl
  · exact .inl rfl

theorem recvTimingResp_inv (inv : s.Inv) (taken : s.allocated = true) (resp : MemCmd)
    (shared : Bool) (now : Nat) : Ends AnyFault (s.recvTimingResp resp shared now) Inv := by
  -- What the fill makes of the lists comes first, then the assertions, then the end.
  unfold recvTimingResp
  split
  · trivial
  · simp only [ends_bind]
    refine (filled_lists resp shared s.mshr).mono fun mshr handled => ?_
    have served : Ends AnyFault (mshr.targets.list.forM
        (serve (isFill resp s.mshr) resp mshr.postInvalidate)) fun _ => True := by
      cases mshr.targets.list.forM (serve (isFill resp s.mshr) resp mshr.postInvalidate) <;>
        trivial
    refine served.mono fun _ _ => ?_
    exact finish_inv (drained_inv inv taken handled none) taken rfl now

theorem popTarget_inv (inv : s.Inv) (taken : s.allocated = true) :
    Inv { s with mshr := s.mshr.popTarget, popped := s.popped ++ s.mshr.targets.ids.take 1 } := by
  have lined := inv.lined
  refine ⟨fun free => absurd taken (by simpa using free), inv.deferred, inv.reset,
    inv.flags.sublist fun t member => List.mem_of_mem_tail member, inv.deferredFlags, ?_,
    ⟨inv.kinds.deferred, inv.kinds.overtaken⟩⟩
  simp only [line] at lined
  have cut : s.mshr.targets.ids.take 1 ++ s.mshr.popTarget.targets.ids = s.mshr.targets.ids := by
    cases split : s.mshr.targets.list <;> simp [TargetList.ids, Mshr.popTarget, split]
  simp only [line, List.append_assoc]
  rw [← List.append_assoc (s.mshr.targets.ids.take 1), cut, ← List.append_assoc]
  exact lined

theorem popTarget_of_done {mshr : Mshr} (none : mshr.deferredTargets = .empty)
    (done : mshr.isForwardNoResponse = true) : mshr.popTarget.targets.list = [] := by
  unfold Mshr.isForwardNoResponse at done
  split at done
  · simp only [Bool.and_eq_true, beq_iff_eq, Mshr.getNumTargets, none, TargetList.empty,
      List.length_nil, Nat.add_zero] at done
    obtain ⟨target, single⟩ := List.length_eq_one_iff.mp done.1.1
    simp [Mshr.popTarget, single]
  · exact absurd done Bool.false_ne_true

theorem markInService_inv (inv : s.Inv) (taken : s.allocated = true)
    (idle : s.mshr.inService = false) (sent : MemCmd) (shared memInhibit : Bool) :
    Ends AnyFault (s.markInService sent shared memInhibit) Inv := by
  have none : s.mshr.deferredTargets = .empty := by
    refine inv.reset ?_
    by_contra some
    simp [inv.deferred some] at idle
  simp only [markInService, Mshr.markInService, idle, Bool.false_eq_true, if_false]
  split
  case isTrue done =>
    simp only [ends_bind, ends_ok, if_true]
    exact deallocate_inv (popTarget_inv inv taken) (popTarget_of_done none done) none
  case isFalse =>
    simp only [ends_bind, ends_ok, Bool.false_eq_true, if_false, ends_pure]
    exact ⟨fun free => absurd taken (by simpa using free), fun _ => rfl, inv.reset, inv.flags,
      inv.deferredFlags, inv.lined,
      ⟨inv.kinds.deferred, inv.kinds.overtaken⟩⟩

theorem getTimingPacket_inv (inv : s.Inv) (taken : s.allocated = true)
    (idle : s.mshr.inService = false) (blkValid accepted shared memInhibit : Bool) (now : Nat) :
    Ends AnyFault (s.getTimingPacket blkValid accepted shared memInhibit now) Inv := by
  unfold getTimingPacket
  split
  · trivial
  · dsimp only
    split
    · exact recvTimingResp_inv inv taken _ _ _
    · split
      · split
        · exact markInService_inv inv taken idle _ _ _
        · exact inv
      · simp only [ends_bind]
        cases MemCmd.busCmd _ _ _ _ with
        | error e => trivial
        | ok bus =>
          have forwarded : Inv { s with mshr := { s.mshr with isForward := bus.isNone } } :=
            ⟨inv.free, inv.deferred, inv.reset, inv.flags, inv.deferredFlags, inv.lined,
      ⟨inv.kinds.deferred, inv.kinds.overtaken⟩⟩
          simp only [ends_ok]
          split
          · exact markInService_inv forwarded taken idle _ _ _
          · exact forwarded

theorem forceDeallocateTarget_inv (inv : s.Inv) (taken : s.allocated = true)
    (idle : s.mshr.inService = false) (now : Nat) :
    Ends AnyFault (s.forceDeallocateTarget now) Inv := by
  have none : s.mshr.deferredTargets = .empty := by
    refine inv.reset ?_
    by_contra some
    simp [inv.deferred some] at idle
  have popped := popTarget_inv inv taken
  unfold forceDeallocateTarget
  split
  · trivial
  · dsimp only
    split
    case isTrue last =>
      have served : s.mshr.popTarget.targets.list = [] := List.isEmpty_iff.mp last
      have nothing : s.mshr.popTarget.deferredTargets.list = [] := by
        simp [Mshr.popTarget, none, TargetList.empty]
      rw [promoteDeferredTargets_none served nothing]
      exact deallocate_inv popped served none
    case isFalse => exact popped

/-- Every operation keeps the invariant. -/
theorem step_inv {e : MshrEvent} (inv : s.Inv) (stepped : s.step e = some t) : t.Inv := by
  unfold step at stepped
  split at stepped
  case isFalse => simp at stepped
  case isTrue on =>
    have ends : Ends AnyFault (s.perform e) Inv := by
      cases e with
      | allocate pkt addr size whenReady =>
        simp only [enabled, Bool.and_eq_true, Bool.not_eq_true'] at on
        exact allocate_inv inv on.1 _ _ _ _
      | allocateTarget pkt whenReady =>
        simp only [enabled, Bool.and_eq_true] at on
        exact allocateTarget_inv inv on.1 _ _
      | handleSnoop pkt now =>
        simp only [enabled, Bool.and_eq_true] at on
        exact handleSnoop_inv inv on.1 _ _
      | downstreamPending pending =>
        exact ⟨inv.free, inv.deferred, inv.reset, inv.flags, inv.deferredFlags, inv.lined,
      ⟨inv.kinds.deferred, inv.kinds.overtaken⟩⟩
      | getTimingPacket blkValid accepted shared memInhibit now =>
        simp only [enabled, Bool.and_eq_true, Bool.not_eq_true'] at on
        exact getTimingPacket_inv inv on.1 on.2 _ _ _ _ _
      | prefetchHit shared memInhibit =>
        simp only [enabled, Bool.and_eq_true, Bool.not_eq_true'] at on
        exact markInService_inv inv on.1.1 on.1.2 _ _ _
      | prefetchSquashed now =>
        simp only [enabled, Bool.and_eq_true, Bool.not_eq_true'] at on
        exact forceDeallocateTarget_inv inv on.1.1 on.1.2 _
      | recvTimingResp resp shared now =>
        simp only [enabled, Bool.and_eq_true] at on
        exact recvTimingResp_inv inv on.1.1 _ _ _
    cases performed : s.perform e with
    | error e => simp [performed, Except.toOption] at stepped
    | ok after =>
      simp only [performed, Except.toOption, Option.some.injEq] at stepped
      exact stepped ▸ ends.of_ok performed

theorem start_inv : start.Inv :=
  ⟨fun _ => ⟨rfl, rfl, rfl⟩, fun some => absurd rfl some, fun _ => rfl,
    TargetList.flagsOk_nil rfl, TargetList.flagsOk_nil rfl, Line.lined_nil _,
    ⟨by simp [start, Mshr.blank, TargetList.ids, TargetList.empty], by simp [start]⟩⟩

theorem Inv.ordered_of_source (inv : s.Inv) (source : Source) :
    (s.line.filter fun id => id.source = source).Pairwise fun a b => a.order < b.order := by
  -- Whoever overtakes is a snoop and whoever is overtaken is not, and numbers are not shared.
  rw [List.pairwise_filter]
  refine List.Pairwise.imp_of_mem ?_ inv.lined.ordered
  intro a b inA inB goes sourceA sourceB
  rcases goes with ⟨less, -⟩ | overtakes
  · exact less
  · obtain ⟨snoop, target⟩ := inv.kinds.overtaken _ overtakes
    have first := inv.lined.eq_of_num_eq (inv.lined.perm.mem_iff.mp inA) snoop rfl
    have second := inv.lined.eq_of_num_eq (inv.lined.perm.mem_iff.mp inB) target rfl
    simp only [decide_eq_true_eq] at sourceA sourceB
    rw [first] at sourceA
    rw [second, ← sourceA] at sourceB
    exact absurd sourceB Source.noConfusion

/-- The assertion of `markPending` holds whenever targets are promoted. -/
theorem Inv.markPending_ok (inv : s.Inv) (resp : MemCmd) (shared : Bool) (now : Nat) :
    s.recvTimingResp resp shared now ≠ .error .notInService := by
  -- Deferred targets are there to be promoted only while the register is in service.
  have filled_ok : Ends (· ≠ .notInService) (filled resp shared s.mshr) fun mshr =>
      mshr.deferredTargets.list ≠ [] → mshr.inService = true := by
    unfold filled
    split
    · unfold Mshr.handleFill
      split
      · split
        · exact CacheFault.noConfusion
        · split
          · exact CacheFault.noConfusion
          · exact fun some => absurd rfl some
      · exact inv.deferred
    · exact inv.deferred
  have served_ok : ∀ fill post (targets : List Target),
      Ends (· ≠ .notInService) (targets.forM (serve fill resp post)) fun _ => True := by
    intro fill post targets
    refine ends_forM fun t _ => ?_
    unfold serve
    dsimp only
    repeat' split
    all_goals first | trivial | exact CacheFault.noConfusion
  have finish_ok : ∀ t : MshrSystem, (t.mshr.deferredTargets.list ≠ [] → t.mshr.inService = true) →
      t.mshr.targets.list = [] → Ends (· ≠ .notInService) (t.finish now) fun _ => True := by
    intro t deferred served
    by_cases none : t.mshr.deferredTargets.list = []
    · simp only [finish, promoteDeferredTargets_none served none, deallocate, Mshr.deallocate,
        served, ends_bind]
      cases t.mshr.deferredTargets.isReset
      · exact CacheFault.noConfusion
      · trivial
    · obtain ⟨first, rest, some⟩ := List.exists_cons_of_ne_nil none
      simp [finish, Mshr.promoteDeferredTargets, served, some, deferred none]
  have ends : Ends (· ≠ .notInService) (s.recvTimingResp resp shared now) fun _ => True := by
    unfold recvTimingResp
    split
    · exact CacheFault.noConfusion
    · simp only [ends_bind]
      refine filled_ok.mono fun mshr deferred => ?_
      refine (served_ok _ _ _).mono fun _ _ => ?_
      exact finish_ok _ deferred rfl
  intro failed
  exact ends.of_error failed rfl

/--
Targets are served each once and in the order in which they were added, save that a snoop goes
before the targets that are deferred when it comes.

Targets are deferred only while the request is in service, and the flags are true to the lists.
-/
theorem targets_served_in_line {events : List MshrEvent}
    (ran : Machine.run step start events = some s) :
    (s.mshr.deferredTargets.list ≠ [] → s.mshr.inService = true) ∧
      (∀ resp shared now, s.recvTimingResp resp shared now ≠ .error .notInService) ∧
      s.line.Perm s.added ∧
      (∀ source, (s.line.filter fun id => id.source = source).Pairwise fun a b =>
        a.order < b.order) ∧
      s.line.Pairwise (Line.Goes TargetId.order s.overtaken) ∧
      (∀ pair ∈ s.overtaken,
        ⟨pair.1, .fromSnoop⟩ ∈ s.added ∧ ⟨pair.2, .fromCPU⟩ ∈ s.added) ∧
      s.mshr.targets.FlagsOk ∧ s.mshr.deferredTargets.FlagsOk := by
  have inv : s.Inv := Machine.run_preserves (fun _ _ _ inv stepped => step_inv inv stepped)
    start_inv ran
  exact ⟨inv.deferred, inv.markPending_ok, inv.lined.perm, inv.ordered_of_source,
    inv.lined.ordered, inv.kinds.overtaken, inv.flags, inv.deferredFlags⟩

/-- A packet of four bytes at address zero. -/
def packetOf (cmd : MemCmd) : Packet :=
  .ofRequest ⟨0, 4, 0, false, false, false, false, false, 0⟩ cmd fun _ => 0

/-- A write that is deferred behind a read, and a snoop that comes after it. -/
def snoopBehindWrite : List MshrEvent :=
  [.allocate (packetOf .readReq) 0 64 0, .getTimingPacket false true false false 0,
    .allocateTarget (packetOf .writeReq) 1, .handleSnoop (packetOf .readExReq) 2,
    .recvTimingResp .readResp false 3, .getTimingPacket false true false false 4,
    .recvTimingResp .readExResp false 5]

/-- The snoop is served before the write, each of the three targets once. -/
theorem snoop_served_before_write :
    ∃ s, Machine.run step start snoopBehindWrite = some s ∧
      s.popped = [⟨0, .fromCPU⟩, ⟨2, .fromSnoop⟩, ⟨1, .fromCPU⟩] ∧ s.line.Perm s.added := by
  have replay : (Machine.run step start snoopBehindWrite).any
      (fun s => s.popped = [⟨0, .fromCPU⟩, ⟨2, .fromSnoop⟩, ⟨1, .fromCPU⟩]) = true := by
    decide +kernel
  obtain ⟨s, ran, checked⟩ := (Option.any_eq_true _ _).mp replay
  exact ⟨s, ran, of_decide_eq_true checked, (targets_served_in_line ran).2.2.1⟩

/-- Targets are not always served in exactly the order in which they were added. -/
theorem snoop_overtakes_deferred_write :
    ¬ ∀ events s, Machine.run step start events = some s → s.popped <+: s.added := by
  intro exactly
  have replay : (Machine.run step start snoopBehindWrite).any
      (fun s => ¬ s.popped <+: s.added) = true := by
    decide +kernel
  obtain ⟨s, ran, checked⟩ := (Option.any_eq_true _ _).mp replay
  exact of_decide_eq_true checked (exactly _ s ran)

end MshrSystem

end GemDroid
