import GemDroid.Core.Issue

/-! How a core reads its trace: instructions, memory requests, IP calls and frame pacing. -/

namespace GemDroid

/--
Read a number from a trace.

A word that is no number makes the stream fail, so that nothing is read any more.
-/
def readNum : List Word → Int × List Word
  | .num value :: ws => (value, ws)
  | _ => (0, [])

/-- A value stored in a 32-bit `int`. -/
def toInt32 (value : Int) : Int :=
  value.bmod (2 ^ 32)

/-- What `setIdleRatio` gathers from the trace up to the next frame. -/
structure LookAhead where
  needToLookAhead : Bool
  cpuWorkingTicks : Int
  cpuIdleTimeNs : Int
  rest : List Word

/-- The scan of `setIdleRatio`, which passes over `skip` words first. -/
def lookAhead : List Word → Nat → LookAhead → LookAhead
  | [], _, seen => { seen with needToLookAhead := false, rest := [] }
  | _ :: ws, skip + 1, seen => lookAhead ws skip seen
  | .cpu :: .num insns :: .num wait :: ws, 0, seen =>
    lookAhead ws 0
      { seen with
        cpuWorkingTicks := seen.cpuWorkingTicks + insns
        cpuIdleTimeNs := seen.cpuIdleTimeNs + wait }
  -- A line cut short makes the stream fail, and the scan ends at the next word it misses.
  | .cpu :: .num insns :: _, 0, seen =>
    { seen with
      needToLookAhead := false
      cpuWorkingTicks := seen.cpuWorkingTicks + insns
      rest := [] }
  | .cpu :: _, 0, seen => { seen with needToLookAhead := false, rest := [] }
  -- Only the number of words on the other lines matters.
  | .mmuLd :: ws, 0, seen => lookAhead ws 2 seen
  | .mmuSt :: ws, 0, seen => lookAhead ws 2 seen
  | .cpuSummary :: ws, 0, seen => lookAhead ws 4 seen
  -- The end mark stops later scans, not this one.
  | .endOfTrace :: ws, 0, seen => lookAhead ws 0 { seen with needToLookAhead := false }
  -- The next display line is where the frame ends.
  | .ip .fbUp :: ws, 0, seen => { seen with rest := ws.drop 2 }
  | .ip _ :: ws, 0, seen => lookAhead ws 2 seen
  | .num _ :: ws, 0, seen => lookAhead ws 2 seen

/-- What the platform answers a core during one tick. -/
structure TickEnv where
  /-- The platform clock (`gemDroid->getTicks()`). -/
  globalTicks : Int
  /-- Whether the agent takes the request of an issue slot (`enqueueCoreMemRequest`). -/
  accepts : Nat → Bool
  /-- Whether the queue of calls for an IP is full (`isIPReqLimitReached`). -/
  limitReached : IpType → Bool

namespace Core

/-- Estimate how much longer the trace waited than a 60 Hz display would (`setIdleRatio`). -/
def setIdleRatio (c : Core) : Core :=
  let seen := lookAhead c.lookaheadTraceFile 0 ⟨c.needToLookAhead, 0, 0, []⟩
  let freq := c.dvfs.getCoreFreq
  { c with
    needToLookAhead := seen.needToLookAhead
    lookaheadTraceFile := seen.rest
    qemuTo60FPSSpeedratio :=
      -- Nothing was seen, and the ratio turns the idle times off.
      if seen.cpuIdleTimeNs = 0 ∧ seen.cpuWorkingTicks = 0 then 0
      else (seen.cpuIdleTimeNs * freq) / (freq * 1000000 * 16 - seen.cpuWorkingTicks) }

/-- Pace the display frames; the result says that this one is dropped (`isFrameDrop`). -/
def isFrameDrop (cfg : CoreConfig) (env : TickEnv) (c : Core) : Core × Bool :=
  let c := { c with
    pipe := { c.pipe with thisFrameRobFullStalls := 0, thisFrameMemFullStalls := 0 }
    thisFrameIPFullStalls := 0 }
  if cfg.typeOfApplication = .displayBound ∨ cfg.typeOfApplication = .videoPlayback then
    let ticksFromLastDC := toInt32 (env.globalTicks - c.lastDCTick)
    let c := { c with frameNumber := Function.update c.frameNumber .dc (c.frameNumber .dc + 1) }
    -- The first frame is shown one period after the start.
    if c.lastDCTick = 0 then
      ({ c with fpsStalls := Rounding.trunc (fpsTicks - c.ticks) }, false)
    else if ticksFromLastDC < fpsTicks then
      ({ c with fpsStalls := Rounding.trunc (fpsTicks - ticksFromLastDC) }, false)
    else
      -- The frame is late.
      let c := { c with lastDCTick := env.globalTicks, framesDropped := c.framesDropped + 1 }
      -- The counters were reset above, so the comparisons see zeros.
      let rob := c.pipe.thisFrameRobFullStalls
      let mem := c.pipe.thisFrameMemFullStalls
      let ip := c.thisFrameIPFullStalls
      if mem < rob ∧ ip < rob then
        ({ c with framesDroppedDueToRobStalls := c.framesDroppedDueToRobStalls + 1 }, true)
      else if rob < mem ∧ ip < mem then
        ({ c with framesDroppedDueToMemStalls := c.framesDroppedDueToMemStalls + 1 }, true)
      else
        ({ c with framesDroppedDueToIPStalls := c.framesDroppedDueToIPStalls + 1 }, true)
  else (c, false)

/-- Pace the audio frames (`isAudioFrameDrop`). -/
def isAudioFrameDrop (cfg : CoreConfig) (env : TickEnv) (c : Core) : Core × Bool :=
  if cfg.typeOfApplication = .audioPlayback then
    let ticksFromLastSND := toInt32 (env.globalTicks - c.lastSNDTick)
    let c := { c with frameNumber := Function.update c.frameNumber .snd (c.frameNumber .snd + 1) }
    -- The first audio frame waits for a single tick.
    if c.lastSNDTick = 0 then ({ c with audFpsStalls := 1 }, false)
    else if ticksFromLastSND < audFpsTicks then
      ({ c with audFpsStalls := Rounding.trunc (audFpsTicks - ticksFromLastSND) }, false)
    else ({ c with lastSNDTick := env.globalTicks }, true)
  else (c, false)

/-- A call that a trace line asks an IP for. -/
structure TraceCall where
  ipMaster : IpType
  addr : Int
  size : Int
  isRead : Bool
  flowType : Int

/-- The first IP after the core in the flows of a type, -1 when there is none. -/
def nextOfCore (cfg : CoreConfig) (flowTy : IpType) : Except CoreFault Int :=
  match cfg.flows.nextIPtoCall IpType.cpu.code flowTy.code with
  | some ips => .ok (ips.headD (-1))
  | none => .error .flowOverflow

/-- The call of a display line: a dropped frame goes to the display, others to their flow. -/
def displayCall (cfg : CoreConfig) (dropped : Bool) : Except CoreFault (Option TraceCall) :=
  let call (ip : IpType) (size : Int) (isRead : Bool) : TraceCall :=
    ⟨ip, ip.addrStart, size, isRead, IpType.dc.code⟩
  -- The branches give the IPs as the source compares them, and their share of a frame.
  if dropped then .ok (some (call .dc frameSize true))
  else do
    let ip ← nextOfCore cfg .dc
    pure <|
      if ip = IpType.vd.code then some (call .vd (frameSize / vidCodingRatio) true)
      else if ip = IpType.img.code then some (call .img (frameSize / 2) true)
      else if ip = IpType.ve.code then some (call .ve frameSize true)
      else if ip = IpType.mmcIn.code then some (call .mmcIn (frameSize / vidCodingRatio) false)
      else if ip = IpType.dc.code then some (call .dc frameSize true)
      else none

/-- The call of an audio line. -/
def audioCall (cfg : CoreConfig) : Except CoreFault (Option TraceCall) := do
  let ip ← nextOfCore cfg .snd
  pure <|
    if ip = IpType.mmcIn.code then
      some ⟨.mmcIn, IpType.mmcIn.addrStart, audFrameSize / audCodingRatio, false, IpType.snd.code⟩
    else if ip = -1 then none
    -- Any other successor is called as the audio decoder.
    else some ⟨.ad, IpType.ad.addrStart, audFrameSize, true, IpType.snd.code⟩

/-- Hand a call to the agent unless its queue is full. -/
def sendCall (cfg : CoreConfig) (env : TickEnv) (call : TraceCall) (c : Core) :
    Except CoreFault Core :=
  -- A full queue loses the call; it is not tried again.
  if env.limitReached call.ipMaster then
    .ok { c with thisFrameIPFullStalls := c.thisFrameIPFullStalls + 1 }
  else
    match cfg.flows.flowIdentification call.ipMaster.code with
    | none => .error .flowOverflow
    | some flows =>
      let frameNum := c.frameNumber call.ipMaster
      .ok { c with
        frameNumber := Function.update c.frameNumber call.ipMaster (frameNum + 1)
        ipCalls := c.ipCalls ++ [⟨.cpu, cfg.coreId, call.ipMaster,
          ⟨cfg.coreId, BitVec.ofInt 64 call.addr, call.size, call.isRead, frameNum,
            call.flowType, flows.headD (-1)⟩⟩] }

/-- The call of an IP line (`processIPCall`); the address and size of the line are not used. -/
def processIPCall (cfg : CoreConfig) (env : TickEnv) (op : IpOp) (c : Core) :
    Except CoreFault Core :=
  match op with
  | .fbUp => do
    let (c, dropped) := c.isFrameDrop cfg env
    let c := { c with readFBLine := true }
    match ← displayCall cfg dropped with
    | some call => c.sendCall cfg env call
    | none => return c
  -- A packet has 1562 bytes, and no flow has the type it is sent with.
  | .nw => c.sendCall cfg env ⟨.nw, IpType.nw.addrStart, 1562, false, ipTypeEnd⟩
  | .sndIn => do
    let (c, _) := c.isAudioFrameDrop cfg env
    match ← audioCall cfg with
    | some call => c.sendCall cfg env call
    | none => return c
  | .sndOut =>
    c.sendCall cfg env ⟨.mic, IpType.mic.addrStart, audFrameSize, false, IpType.mic.code⟩
  | .cam =>
    -- The camera is called once for each display line at most.
    if !c.readFBLine then .ok c
    else
      -- Three more words belong to the line of a camera call that is made.
      { c with readFBLine := false, emTraceFile := c.emTraceFile.drop 3 }.sendCall cfg env
        ⟨.cam, IpType.cam.addrStart, frameSize / 1, false, IpType.cam.code⟩
  | .other => .ok c

/-- Offset of a core's addresses. -/
def addrOffset (coreId : Int) : Int :=
  -- From the third core on the cores share their offsets in groups.
  if coreId < 2 then coreId * 1024 * 1024 * 1024
  else coreId.tdiv 6 * 1024 * 1024 * 1024

/-- Read the rest of a CPU line. -/
def readCpuLine (ws : List Word) (c : Core) : Except CoreFault Core := do
  let (insns, ws) := readNum ws
  let (wait, ws) := readNum ws
  -- The waiting time is scaled to the pace of the display; without a ratio there is none.
  let idleStalls :=
    if c.qemuTo60FPSSpeedratio ≠ 0 then
      Rounding.trunc (wait * c.dvfs.getCoreFreq / c.qemuTo60FPSSpeedratio)
    else 0
  let rob ← c.pipe.rob.addInstructions insns
  return { c with pipe := { c.pipe with rob }, emTraceFile := ws, idleStalls }

/-- Read the rest of the line of a load or a store. -/
def readMmuLine (cfg : CoreConfig) (isRead : Bool) (ws : List Word) (c : Core) :
    Except CoreFault Core := do
  let (addr, ws) := readNum ws
  let (_, ws) := readNum ws
  -- The second number of the line is not used.
  let rob ← c.pipe.rob.processMMURequest isRead (BitVec.ofInt 64 (addr + addrOffset cfg.coreId))
  return { c with pipe := { c.pipe with rob }, emTraceFile := ws }

/-- Read the rest of an IP line and make its call. -/
def readIpLine (cfg : CoreConfig) (env : TickEnv) (op : IpOp) (ws : List Word) (c : Core) :
    Except CoreFault Core := do
  let (_, ws) := readNum ws
  let (_, ws) := readNum ws
  let c ← { c with emTraceFile := ws }.processIPCall cfg env op
  pure <|
    -- A display line starts a new frame, whose idle times are estimated anew.
    if op = .fbUp ∧ cfg.typeOfApplication ≠ .coreBound ∧ c.needToLookAhead then c.setIdleRatio
    else c

/-- Read the next line of the trace (`readLine`). -/
def readLine (cfg : CoreConfig) (env : TickEnv) (c : Core) : Except CoreFault Core :=
  if c.cpuPstate ≠ .active then .error .notActive
  else
    match c.emTraceFile with
    -- At the end of the trace nothing is read, and the core is left as it is.
    | [] => .ok c
    | .cpu :: ws => c.readCpuLine ws
    | .mmuLd :: ws => c.readMmuLine cfg true ws
    | .mmuSt :: ws => c.readMmuLine cfg false ws
    | .cpuSummary :: ws => .ok { c with emTraceFile := ws.drop 4 }
    | .endOfTrace :: ws => .ok { c with emTraceFile := ws }
    | .ip op :: ws => c.readIpLine cfg env op ws
    -- A number in the place of an operation is taken for a call the core does not know.
    | .num _ :: ws => c.readIpLine cfg env .other ws

end Core

end GemDroid
