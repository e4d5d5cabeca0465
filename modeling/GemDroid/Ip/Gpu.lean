import GemDroid.Core.FramePacing
import GemDroid.Ip.Base
import GemDroid.Lib.Run

/-! The GPU, which replays a trace and writes each frame it has rendered to the display. -/

namespace GemDroid

/-- A line of a GPU trace, with the numbers read from it. -/
inductive GpuLine
  | gpu (insns : Int)
  | gmuSt (addr : Addr)
  | gmuLd (addr : Addr)
  | rendered
  | endOfTrace
  | unknown
  deriving DecidableEq, Repr

/-- What one tick of the GPU finds around it. -/
structure GpuTickEnv where
  globalTicks : Int
  governor : Governor
  /-- Whether the agent takes the request that waits, and whether it takes a new one. -/
  acceptsWaiting : Bool
  acceptsNew : Bool

/-- The state of `GemDroidIPGPU`, without the counters that are only reported. -/
structure Gpu where
  /-- The base class; the frame number is the one of `frames`. -/
  ip : Ip
  frames : GpuFrames
  cyclesToSkip : Int
  framesDisplayed : Int
  /-- The lines of the trace that are left. -/
  trace : List GpuLine
  /-- What has been asked of the agent, and the memory requests that it has taken. -/
  asked : List IpCall
  taken : List IpCall
  deriving DecidableEq, Repr

namespace Gpu

/-- What `init` writes over the memory the object was allocated in. -/
def init (raw : Gpu) (dvfs : IpDvfs) (trace : List GpuLine) : Gpu :=
  let ip := Ip.init raw.ip .gpu false 0 dvfs
  { raw with
    ip := { ip with power := { ip.power with powerState := .active } }
    frames := {
      lastDCTick := 0, fpsStalls := 0, framesDropped := 0, frameNum := raw.frames.frameNum,
      writeToDCFlag := false, addrToDC := 0 }
    framesDisplayed := 0
    trace
    asked := []
    taken := [] }

/-- Offer the request of the slot to the agent (`sendMemoryReq`). -/
def sendMemoryReq (accepted : Bool) (g : Gpu) : Gpu :=
  let (ip, calls) := g.ip.sendMemoryReq accepted
  { g with ip, taken := g.taken ++ calls }

/-- Put a request into the slot and offer it at once (`processMMURequest`). -/
def processMMURequest (accepted : Bool) (addr : Addr) (isRead : Bool) (g : Gpu) : Gpu :=
  sendMemoryReq accepted
    { g with
      ip := { g.ip with reqCount := 1, reqAddr := addr, isRead }
      asked := g.asked ++ [.memRequest addr isRead] }

/-- Read a line of the trace, with the assertions on it (`readLine`). -/
def readLine (env : GpuTickEnv) (g : Gpu) : Option Gpu :=
  match g.trace with
  -- Nothing can be read any more, which no branch knows.
  | [] => none
  | line :: trace =>
    let g := { g with trace }
    match line with
    | .gpu insns =>
      if insns < 10000000000 then some { g with cyclesToSkip := toInt32 insns } else none
    -- Stores are read over.
    | .gmuSt _ => some g
    | .gmuLd addr =>
      some (g.processMMURequest env.acceptsNew (addr + BitVec.ofInt 64 IpType.gpu.addrStart) true)
    | .rendered => some { g with frames := g.frames.rendered env.globalTicks }
    | .endOfTrace => some g
    | .unknown => none

/--
Account one cycle and move between power states (`GemDroidIPGPU::updatePower`).

The answer says whether the GPU may work in this cycle.
-/
def updatePower (governor : Governor) (p : IpPower) : IpPower × Bool :=
  let p := if p.powerState = .lowpower then { p with idleCycles := p.idleCycles + 1 } else p
  if 0 < p.cyclesToWake then
    let p := { p with cyclesToWake := p.cyclesToWake - 1 }
    if p.cyclesToWake = 0 then ({ p.setPStateActive governor with idleCycles := 0 }, false)
    else (p, false)
  else
    -- The state reached is asked for below, and no state below the active one may work.
    let p :=
      if ipPStateEnterTime false ≤ p.idleCycles then
        match p.powerState with
        | .active => { p with powerState := .lowpower, idleCycles := 0 }
        | .lowpower => { p with powerState := .idle, idleCycles := 0 }
        | .idle => { p with idleCycles := 0 }
      else p
    (p, p.powerState == .active)

/-- Account one cycle in the state of the GPU. -/
def countPower (env : GpuTickEnv) (g : Gpu) : Gpu × Bool :=
  let (power, working) := updatePower env.governor g.ip.power
  ({ g with ip := { g.ip with power } }, working)

/-- Wait a cycle for the time of the next frame, and wake up in the last one. -/
def waitFps (env : GpuTickEnv) (g : Gpu) : Gpu :=
  let power : IpPower := { g.ip.power with idleCycles := g.ip.power.idleCycles + 1 }
  let frames : GpuFrames := { g.frames with
    fpsStalls := Rounding.trunc (g.frames.fpsStalls - gemdroidFreq / power.dvfs.getIPFreq) }
  if frames.fpsStalls ≤ 0 then
    { g with
      ip := { g.ip with power := power.wakeUp }
      frames := { frames with lastDCTick := env.globalTicks } }
  else { g with ip := { g.ip with power }, frames }

/-- Write the next line of the frame to the display, and report the frame behind the last one. -/
def writeToDC (env : GpuTickEnv) (g : Gpu) : Gpu :=
  let g := g.processMMURequest env.acceptsNew (BitVec.ofInt 64 g.frames.addrToDC) false
  let addrToDC := g.frames.addrToDC + cacheLineSize
  if dc1AddrStart + frameSize ≤ addrToDC then
    -- The agent answers that it has taken the report, whatever it does with it.
    { g with
      frames := { g.frames with addrToDC, writeToDCFlag := false }
      framesDisplayed := g.framesDisplayed + 1
      asked := g.asked ++ [.ipResponse 0 g.framesDisplayed IpType.dc.code 0] }
  else { g with frames := { g.frames with addrToDC } }

/-- Skip a cycle of the work, or read the next line. -/
def work (env : GpuTickEnv) (g : Gpu) : Option Gpu :=
  if 0 < g.cyclesToSkip then some { g with cyclesToSkip := g.cyclesToSkip - 1 }
  else g.readLine env

/-- The rest of a tick, with the slot free. -/
def proceed (env : GpuTickEnv) (g : Gpu) : Option Gpu :=
  if 0 < g.frames.fpsStalls then some ((g.waitFps env).countPower env).1
  else if g.frames.writeToDCFlag then some (g.writeToDC env)
  else
    let (g, working) := g.countPower env
    if working then g.work env else some g

/-- One clock cycle (`tick`), nothing when an assertion fails. -/
def tick (env : GpuTickEnv) (g : Gpu) : Option Gpu :=
  if 0 < g.ip.reqCount then
    let g := g.sendMemoryReq env.acceptsWaiting
    -- A request that is not taken keeps the slot, and nothing else is done.
    if env.acceptsWaiting then g.proceed env else some g
  else g.proceed env

end Gpu

/-- What can happen to the GPU. -/
inductive GpuEvent
  /-- Its clock ticks. -/
  | tick (env : GpuTickEnv)
  /-- The memory answers a request. -/
  | memResponse
  /-- A governor changes the frequency state. -/
  | setDvfs (dvfs : IpDvfs)

namespace Gpu

/-- One event, nothing when an assertion fails. -/
def step (g : Gpu) : GpuEvent → Option Gpu
  | .tick env => g.tick env
  | .memResponse => some { g with ip := g.ip.memResponse }
  | .setDvfs dvfs => some { g with ip := { g.ip with power := { g.ip.power with dvfs } } }

end Gpu

end GemDroid
