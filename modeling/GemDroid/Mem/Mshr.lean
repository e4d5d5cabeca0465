import GemDroid.Mem.Blk

/-! A miss status holding register: the targets of one outstanding request. -/

namespace GemDroid

/-- Where a target came from (`MSHR::Target::Source`). -/
inductive Source
  | fromCPU
  | fromSnoop
  | fromPrefetcher
  deriving DecidableEq, Repr

/-- A packet that waits for the request of its register (`MSHR::Target`). -/
structure Target where
  readyTime : Nat
  order : Nat
  pkt : Packet
  source : Source

/-- A list of targets with the flags that are kept for it (`MSHR::TargetList`). -/
structure TargetList where
  list : List Target
  needsExclusive : Bool
  hasUpgrade : Bool

/-- The conversion of a command whose copy of the block was taken away (`replaceUpgrade`). -/
def MemCmd.replaceUpgrade : MemCmd → MemCmd
  | .upgradeReq => .readExReq
  | .scUpgradeReq => .scUpgradeFailReq
  | .storeCondReq => .storeCondFailReq
  | cmd => cmd

/-- The conversion of a packet (`replaceUpgrade`). -/
def Packet.replaceUpgrade (pkt : Packet) : Packet :=
  { pkt with cmd := pkt.cmd.replaceUpgrade }

/-- The conversion of a target. -/
def Target.replaceUpgrade (target : Target) : Target :=
  { target with pkt := target.pkt.replaceUpgrade }

namespace TargetList

/-- An empty list. -/
def empty : TargetList :=
  { list := [], needsExclusive := false, hasUpgrade := false }

/-- Clear the flags (`resetFlags`). -/
def resetFlags (targets : TargetList) : TargetList :=
  { targets with needsExclusive := false, hasUpgrade := false }

/-- Whether the flags are clear (`isReset`). -/
def isReset (targets : TargetList) : Bool :=
  !targets.needsExclusive && !targets.hasUpgrade

/-- Append a target; a snoop leaves the flags alone (`add`). -/
def add (pkt : Packet) (readyTime order : Nat) (source : Source) (targets : TargetList) :
    TargetList :=
  let own := source != .fromSnoop
  { list := targets.list ++ [⟨readyTime, order, pkt, source⟩]
    needsExclusive := targets.needsExclusive || (own && pkt.cmd.needsExclusive)
    -- A waiting store-conditional had a read-only copy, so it is as good as an upgrade.
    hasUpgrade := targets.hasUpgrade ||
      (own && (pkt.cmd.isUpgrade || pkt.cmd == .storeCondReq)) }

/-- Convert all targets when some of them may be an upgrade (`replaceUpgrades`). -/
def replaceUpgrades (targets : TargetList) : TargetList :=
  if targets.hasUpgrade then
    { targets with list := targets.list.map Target.replaceUpgrade, hasUpgrade := false }
  else targets

end TargetList

/--
A register (`MSHR`).

The flag `downstreamPending` is set and cleared by the cache below, which buffers the request.
-/
structure Mshr where
  readyTime : Nat
  isUncacheable : Bool
  downstreamPending : Bool
  pendingDirty : Bool
  postInvalidate : Bool
  postDowngrade : Bool
  order : Nat
  addr : Addr
  size : Nat
  isSecure : Bool
  inService : Bool
  isForward : Bool
  targets : TargetList
  deferredTargets : TargetList

namespace Mshr

/-- A register that was never used. -/
def blank : Mshr :=
  { readyTime := 0, isUncacheable := false, downstreamPending := false, pendingDirty := false,
    postInvalidate := false, postDowngrade := false, order := 0, addr := 0, size := 0,
    isSecure := false, inService := false, isForward := false, targets := .empty,
    deferredTargets := .empty }

/-- The number of targets in both lists (`getNumTargets`). -/
def getNumTargets (mshr : Mshr) : Nat :=
  mshr.targets.list.length + mshr.deferredTargets.list.length

/-- The only target is a request that no response is expected for (`isForwardNoResponse`). -/
def isForwardNoResponse (mshr : Mshr) : Bool :=
  match mshr.targets.list.head? with
  | some target =>
    mshr.getNumTargets == 1 && target.source == .fromCPU && !target.pkt.cmd.needsResponse
  | none => false

/-- Drop the first target (`popTarget`). -/
def popTarget (mshr : Mshr) : Mshr :=
  { mshr with targets := { mshr.targets with list := mshr.targets.list.tail } }

/-- Take over a miss (`allocate`). -/
def allocate (addr : Addr) (size : Nat) (target : Packet) (whenReady order : Nat)
    (mshr : Mshr) : Except CacheFault Mshr :=
  if !mshr.targets.isReset || !mshr.deferredTargets.isReset then .error .targetsNotReset
  else
    let source := if target.cmd = .hardPFReq then .fromPrefetcher else .fromCPU
    .ok { mshr with
      addr := addr
      size := size
      isSecure := target.isSecure
      readyTime := whenReady
      order := order
      isForward := false
      isUncacheable := target.req.isUncacheable
      inService := false
      downstreamPending := false
      targets := mshr.targets.add target whenReady order source }

/--
Record that the request was sent (`markInService`).

The answer says that no response is expected, so that the register is done.
-/
def markInService (shared memInhibit : Bool) (mshr : Mshr) : Except CacheFault (Mshr × Bool) :=
  if mshr.inService then .error .alreadyInService
  else if mshr.isForwardNoResponse then .ok (mshr.popTarget, true)
  else .ok ({ mshr with
    inService := true
    pendingDirty := mshr.targets.needsExclusive || (!shared && memInhibit)
    postInvalidate := false
    postDowngrade := false }, false)

/-- Free the register (`deallocate`). -/
def deallocate (mshr : Mshr) : Except CacheFault Mshr :=
  if !mshr.targets.list.isEmpty then .error .targetsLeft
  else if !mshr.deferredTargets.isReset then .error .targetsNotReset
  else .ok { mshr with targets := mshr.targets.resetFlags, inService := false }

/-- Whether a target has to wait until the present request is answered. -/
def defers (cmd : MemCmd) (mshr : Mshr) : Bool :=
  mshr.inService &&
    (!mshr.deferredTargets.list.isEmpty || mshr.postInvalidate ||
      (cmd.needsExclusive && (!mshr.pendingDirty || mshr.postDowngrade || mshr.isForward)))

/-- Add a target from the CPU side (`allocateTarget`). -/
def allocateTarget (pkt : Packet) (whenReady order : Nat) (mshr : Mshr) :
    Except CacheFault Mshr :=
  if pkt.cmd = .hardPFReq then .error .prefetchJoins
  else if mshr.defers pkt.cmd then
    -- The copy an upgrade relies on goes away before its turn.
    let pkt := if mshr.postInvalidate then pkt.replaceUpgrade else pkt
    .ok { mshr with
      deferredTargets := mshr.deferredTargets.add pkt whenReady order .fromCPU }
  else .ok { mshr with targets := mshr.targets.add pkt whenReady order .fromCPU }

/-- Whether a snooped packet comes before the request of the register. -/
def precededBy (pkt : Packet) (mshr : Mshr) : Bool :=
  !mshr.inService || (pkt.expressSnoop && mshr.downstreamPending)

/--
Let the register see a snoop (`handleSnoop`).

The answer says whether the register takes care of it, and comes with the flags the packet gets.
-/
def handleSnoop (pkt : Packet) (now order : Nat) (mshr : Mshr) : Mshr × Packet × Bool :=
  let exclusive := pkt.cmd.needsExclusive
  if mshr.precededBy pkt then
    if exclusive then
      ({ mshr with
        targets := mshr.targets.replaceUpgrades
        deferredTargets := mshr.deferredTargets.replaceUpgrades }, pkt, false)
    else (mshr, pkt, false)
  else
    -- The snoop still comes before the request that the deferred targets will lead to.
    let later := if exclusive then mshr.deferredTargets.replaceUpgrades else mshr.deferredTargets
    if mshr.postInvalidate then ({ mshr with deferredTargets := later }, pkt, true)
    else
      -- A copy is replayed later if ownership is on its way, or if it invalidates the block.
      let recorded := mshr.pendingDirty || pkt.cmd.isInvalidate
      ({ mshr with
        deferredTargets := later
        targets :=
          if recorded then mshr.targets.add pkt.clearFlags now order .fromSnoop else mshr.targets
        postInvalidate := recorded && exclusive
        postDowngrade := mshr.postDowngrade || !exclusive },
      { pkt with
        memInhibit := pkt.memInhibit || mshr.pendingDirty
        supplyExclusive := pkt.supplyExclusive || mshr.pendingDirty
        shared := pkt.shared || !exclusive }, true)

/-- Make the deferred targets the present ones (`promoteDeferredTargets`). -/
def promoteDeferredTargets (now : Nat) (mshr : Mshr) : Except CacheFault (Mshr × Bool) :=
  if !mshr.targets.list.isEmpty then .error .targetsLeft
  else
    match mshr.deferredTargets.list.head? with
    | none => .ok (mshr, false)
    | some first => .ok ({ mshr with
        targets := mshr.deferredTargets
        deferredTargets := mshr.targets.resetFlags
        order := first.order
        readyTime := max now first.readyTime }, true)

/-- Let deferred targets use an exclusive copy that the response brought (`handleFill`). -/
def handleFill (shared : Bool) (mshr : Mshr) : Except CacheFault Mshr :=
  if !shared && !(mshr.postInvalidate || mshr.postDowngrade) &&
      mshr.deferredTargets.needsExclusive then
    if mshr.targets.needsExclusive then .error .exclusiveDeferred
    else if mshr.downstreamPending then .error .pendingDownstream
    else .ok { mshr with
      targets := { mshr.targets with
        list := mshr.targets.list ++ mshr.deferredTargets.list
        needsExclusive := true }
      deferredTargets := .empty }
  else .ok mshr

end Mshr

end GemDroid
