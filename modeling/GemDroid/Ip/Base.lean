import GemDroid.Dvfs.States

/-! The base class of the IPs: its power states, its single request slot and the device tick. -/

namespace GemDroid

/-- Power states of an IP (`ip_state`). -/
inductive IpState
  | idle
  | lowpower
  | active
  deriving DecidableEq, Repr

/-- Idle cycles after which a device or an accelerator is lowered (`IP*_PSTATE_ENTER_TIME`). -/
def ipPStateEnterTime (isDevice : Bool) : Int :=
  -- Both classes have a constant of their own, with the same value today.
  if isDevice then 48900 * 2 else 48900 * 2

/-- Cycles to leave the low-power state (`IP*_PSTATE_LOWPOWER_EXIT_TIME`). -/
def ipPStateLowpowerExitTime (isDevice : Bool) : Int :=
  if isDevice then 54600 * 2 else 54600 * 2

/-- Cycles to leave the idle state (`IP*_PSTATE_IDLE_EXIT_TIME`). -/
def ipPStateIdleExitTime (isDevice : Bool) : Int :=
  if isDevice then 54600 * 2 else 54600 * 2

/-- The part of an IP that power management reads and writes. -/
structure IpPower where
  ipType : IpType
  isDevice : Bool
  powerState : IpState
  idleCycles : Int
  cyclesToWake : Int
  dvfs : IpDvfs
  deriving DecidableEq, Repr

namespace IpPower

/-- Cycles until the IP can work when it is called in its present state. -/
def exitTime (p : IpPower) : Int :=
  match p.powerState with
  | .lowpower => ipPStateLowpowerExitTime p.isDevice
  | .idle => ipPStateIdleExitTime p.isDevice
  | .active => p.cyclesToWake

/-- Start waking a sleeping IP (`wakeUp`, and the same branches of `enqueueIPReq`). -/
def wakeUp (p : IpPower) : IpPower :=
  { p with cyclesToWake := p.exitTime }

/-- Enter the active state, with the frequency the governor wants there (`setPStateActive`). -/
def setPStateActive (governor : Governor) (p : IpPower) : IpPower :=
  -- The comparison leaves out the video decoder, the first of the accelerators.
  if governor = .interactive ∧ IpType.vd.code < p.ipType.code then
    { p with dvfs := p.dvfs.setMaxIPFreq, powerState := .active }
  else if governor = .powercap ∧ IpType.vd.code < p.ipType.code then
    { p with dvfs := p.dvfs.setOptIPFreq, powerState := .active }
  else { p with powerState := .active }

/--
Account one cycle and move between power states (`updatePower`).

The answer says whether the IP may work in this cycle.
-/
def updatePower (governor : Governor) (p : IpPower) : IpPower × Bool :=
  -- Cycles in the low-power state count as idle.
  let p := if p.powerState = .lowpower then { p with idleCycles := p.idleCycles + 1 } else p
  if 0 < p.cyclesToWake then
    -- A waking IP does no work, and becomes active in its last waking cycle.
    let p := { p with cyclesToWake := p.cyclesToWake - 1 }
    if p.cyclesToWake ≤ 0 then ({ p.setPStateActive governor with idleCycles := 0 }, false)
    else (p, false)
  else if ipPStateEnterTime p.isDevice ≤ p.idleCycles then
    match p.powerState with
    | .active => ({ p with powerState := .lowpower, idleCycles := 0 }, false)
    | .lowpower => ({ p with powerState := .idle, idleCycles := 0 }, false)
    -- There is no deeper state.
    | .idle => ({ p with idleCycles := 0 }, false)
  else (p, p.powerState == .active)

theorem updatePower_waking {governor : Governor} {p : IpPower} (asleep : p.powerState = .idle)
    (more : 1 < p.cyclesToWake) :
    p.updatePower governor = ({ p with cyclesToWake := p.cyclesToWake - 1 }, false) := by
  -- More than one cycle is left, so the state stays what it was.
  have positive : 0 < p.cyclesToWake := by omega
  have later : ¬ p.cyclesToWake - 1 ≤ 0 := by omega
  simp only [updatePower, asleep, reduceCtorEq, if_false, positive, if_true, later]

theorem updatePower_woken {p : IpPower} (asleep : p.powerState = .idle)
    (last : p.cyclesToWake = 1) :
    p.updatePower .disabled =
      ({ p with powerState := .active, cyclesToWake := 0, idleCycles := 0 }, false) := by
  -- The last cycle makes the IP active and clears its idle count.
  simp [updatePower, setPStateActive, asleep, last]

end IpPower

/-- The arguments of one call of `enqueueIPReq`. -/
structure IpRequest where
  coreId : Int
  addr : Addr
  size : Int
  isRead : Bool
  frameNum : Int
  flowType : Int
  flowId : Int
  deriving DecidableEq, Repr

/-- What an IP asks of the system agent during one tick, as far as the agent accepted it. -/
inductive IpCall
  | memRequest (addr : Addr) (isRead : Bool)
  | ipResponse (coreId frameNum flowType flowId : Int)
  deriving DecidableEq, Repr

/-- The state of `GemDroidIP`, without the counters that are only reported. -/
structure Ip where
  power : IpPower
  ioLatency : Int
  coreId : Int
  flowType : Int
  flowId : Int
  reqCount : Int
  respCount : Int
  dataSize : Int
  isBusy : Bool
  reqAddr : Addr
  isRead : Bool
  frameNum : Int
  cyclesToSkip : Int
  deriving DecidableEq, Repr

namespace Ip

/--
What `init` writes over the memory the object was allocated in.

The busy flag, the response count and the data size keep the values found there.
-/
def init (raw : Ip) (ipType : IpType) (isDevice : Bool) (ioLatency : Int) (dvfs : IpDvfs) : Ip :=
  { raw with
    power := {
      ipType := ipType, isDevice := isDevice, powerState := .idle,
      idleCycles := 0, cyclesToWake := 0, dvfs := dvfs }
    ioLatency := ioLatency
    reqCount := -1
    cyclesToSkip := 0 }

/-- Take a request when none is in progress (`enqueueIPReq`). -/
def enqueueIPReq (req : IpRequest) (ip : Ip) : Ip × Bool :=
  if ip.isBusy then (ip, false)
  else
    -- The data is moved in whole lines, and the last one may be partly used.
    let lines := Rounding.ceilDiv req.size cacheLineSize
    ({ ip with
      isBusy := true
      reqCount := lines
      reqAddr := req.addr
      isRead := req.isRead
      frameNum := req.frameNum
      respCount := 0
      dataSize := req.size
      coreId := req.coreId
      cyclesToSkip := ip.ioLatency * lines
      flowType := req.flowType
      flowId := req.flowId
      power := { ip.power.wakeUp with idleCycles := 0 } }, true)

/-- Offer the next memory request to the agent (`sendMemoryReq`). -/
def sendMemoryReq (accepted : Bool) (ip : Ip) : Ip × List IpCall :=
  if accepted then
    ({ ip with reqCount := ip.reqCount - 1, reqAddr := ip.reqAddr + 64#64 },
      [.memRequest ip.reqAddr ip.isRead])
  else (ip, [])

/-- A memory response arrives (`memResponse`). -/
def memResponse (ip : Ip) : Ip :=
  { ip with respCount := ip.respCount + 1 }

/-- Spend one cycle of the fixed latency; the answer says whether some is left (`process`). -/
def process (ip : Ip) : Ip × Bool :=
  let ip := if 0 < ip.cyclesToSkip then { ip with cyclesToSkip := ip.cyclesToSkip - 1 } else ip
  (ip, ip.cyclesToSkip != 0)

/-- The completion test of `tick`: report the request once all responses are counted. -/
def complete (ip : Ip) : Ip × List IpCall :=
  -- Both operands are `int`, so the quotient is already truncated when `ceil` sees it.
  if ip.respCount = ip.dataSize.tdiv cacheLineSize then
    ({ ip with isBusy := false, respCount := 0, reqCount := 0 },
      [.ipResponse ip.coreId ip.frameNum ip.flowType ip.flowId])
  else (ip, [])

/-- The rest of `tick`: count an idle cycle or send the next request. -/
def advance (accepted : Bool) (ip : Ip) : Ip × List IpCall :=
  -- An IP that waits for its last responses is busy and does not count as idle.
  if ip.reqCount ≤ 0 ∧ ip.isBusy = false then
    ({ ip with power := { ip.power with idleCycles := ip.power.idleCycles + 1 } }, [])
  else if 0 < ip.reqCount then
    let (ip, calls) := ip.sendMemoryReq accepted
    -- The count moves past zero so that the branch is not entered again.
    (if ip.reqCount = 0 then { ip with reqCount := ip.reqCount - 1 } else ip, calls)
  else (ip, [])

/-- One clock cycle of a device (`tick`). -/
def tick (governor : Governor) (accepted : Bool) (ip : Ip) : Ip × List IpCall :=
  let (power, working) := ip.power.updatePower governor
  let ip := { ip with power := power }
  if working then
    let (ip, waiting) := ip.process
    if waiting then (ip, [])
    else
      -- The completion is tested before the next request is sent.
      let (ip, reported) := ip.complete
      let (ip, sent) := ip.advance accepted
      (ip, reported ++ sent)
  else (ip, [])

end Ip

end GemDroid
