import GemDroid.Ip.Base

/-! The accelerators that stream a frame: the decoders, the encoders and the image processor. -/

namespace GemDroid

/-- The classes of streaming accelerators. -/
inductive CoderKind
  | decoder
  | encoder
  | nocoder
  deriving DecidableEq, Repr

/--
The figures an accelerator is built with.

Every line takes at least one cycle.
An encoder spreads its latency over the lines of one output line, so there the latency covers
the ratio.
-/
structure CoderConfig where
  kind : CoderKind
  computeLatency : Int
  inBufferSize : Int
  outBufferSize : Int
  codingRatio : Int
  targetOutputChunkSizeInCL : Int
  latencyPositive : 1 ≤ computeLatency
  ratioPositive : 1 ≤ codingRatio
  latencyCovers : kind = .encoder → codingRatio ≤ computeLatency
  chunkPositive : 1 ≤ targetOutputChunkSizeInCL
  inBufferNonneg : 0 ≤ inBufferSize
  outBufferNonneg : 0 ≤ outBufferSize
  deriving DecidableEq, Repr

/-- What one call of `process` did (`process_event`). -/
inductive ProcessEvent
  | outBufferFull
  | inBufferEmpty
  | inbufferDataRecvd
  | trueProcessCycle
  deriving DecidableEq, Repr

/-- The state of a streaming accelerator over that of its base class. -/
structure Coder where
  config : CoderConfig
  ip : Ip
  currInBuffer : Int
  currOutBuffer : Int
  reqOutAddr : Addr
  reqSent : Int
  inputProcessedInCL : Int
  inputToBeProcessedInCL : Int
  dependenceCount : Int
  dependenceAddr : Addr
  deriving DecidableEq, Repr

/-- An assertion of `enqueueIPReq` that failed. -/
inductive CoderFault
  | currInBufferNonzero
  | currOutBufferNonzero
  deriving DecidableEq, Repr

/-- Every tenth frame needs no reference frame (`FRACTION_OF_IFRAMES`). -/
def fractionOfIFrames : Int := 10

namespace Coder

/--
What `init` writes over the memory the object was allocated in.

The streaming counters and the dependence count keep the values found there.
-/
def init (raw : Coder) (config : CoderConfig) (ipType : IpType) (dvfs : IpDvfs) : Coder :=
  { raw with
    config := config
    ip := raw.ip.init ipType false 0 dvfs
    currInBuffer := 0
    currOutBuffer := 0 }

/-- A memory response arrives; only a read brings data (`memResponse`). -/
def memResponse (isRead : Bool) (c : Coder) : Coder :=
  { c with
    currInBuffer := if isRead then c.currInBuffer + 1 else c.currInBuffer
    ip := c.ip.memResponse }

/-- Where the output of a frame starts; a type the class does not name keeps the old address. -/
def outputBase (c : Coder) : Addr :=
  match c.config.kind, c.ip.power.ipType with
  | .decoder, .vd => BitVec.ofInt 64 (IpType.vd.addrStart + frameSize)
  | .decoder, .ad => BitVec.ofInt 64 (IpType.ad.addrStart + audFrameSize)
  | .encoder, .ve => BitVec.ofInt 64 (IpType.ve.addrStart + frameSize)
  | .encoder, .ae => BitVec.ofInt 64 (IpType.ae.addrStart + audFrameSize)
  | .nocoder, .img => BitVec.ofInt 64 (IpType.img.addrStart + frameSize)
  | _, _ => c.reqOutAddr

/-- Whether a frame is decoded against an earlier one (`P_Frame`). -/
def isPFrame (req : IpRequest) (c : Coder) : Bool :=
  c.config.kind = .decoder ∧ c.ip.power.ipType = .vd ∧ req.frameNum.tmod fractionOfIFrames ≠ 0

/-- The reads of a dependent frame: two fifths from the reference, three fifths from the data. -/
def splitReads (req : IpRequest) (c : Coder) : Coder :=
  -- The shares are cut from the size and from the line count in turn.
  if c.isPFrame req then
    { c with
      dependenceCount := Rounding.ceilDiv (req.size * 2) (5 * cacheLineSize)
      dependenceAddr := BitVec.ofInt 64 (IpType.vd.addrStart + 2 * frameSize)
      ip := { c.ip with reqCount := Rounding.ceilDiv (c.ip.reqCount * 3) 5 } }
  else c

section

variable (req : IpRequest) (c : Coder)

@[simp] theorem splitReads_config : (splitReads req c).config = c.config := by
  unfold splitReads
  split <;> rfl

@[simp] theorem splitReads_currInBuffer :
    (splitReads req c).currInBuffer = c.currInBuffer := by
  unfold splitReads
  split <;> rfl

@[simp] theorem splitReads_currOutBuffer :
    (splitReads req c).currOutBuffer = c.currOutBuffer := by
  unfold splitReads
  split <;> rfl

@[simp] theorem splitReads_reqOutAddr : (splitReads req c).reqOutAddr = c.reqOutAddr := by
  unfold splitReads
  split <;> rfl

@[simp] theorem splitReads_power : (splitReads req c).ip.power = c.ip.power := by
  unfold splitReads
  split <;> rfl

@[simp] theorem splitReads_isRead : (splitReads req c).ip.isRead = c.ip.isRead := by
  unfold splitReads
  split <;> rfl

@[simp] theorem splitReads_cyclesToSkip :
    (splitReads req c).ip.cyclesToSkip = c.ip.cyclesToSkip := by
  unfold splitReads
  split <;> rfl

end

/-- Take a frame when none is in progress (`enqueueIPReq`). -/
def enqueueIPReq (req : IpRequest) (c : Coder) : Except CoderFault (Coder × Bool) :=
  let (ip, accepted) := c.ip.enqueueIPReq req
  if accepted then
    let c := splitReads req { c with ip := ip, reqOutAddr := c.outputBase }
    -- A frame may only start with both buffers empty.
    if c.currInBuffer ≠ 0 then .error .currInBufferNonzero
    else if c.currOutBuffer ≠ 0 then .error .currOutBufferNonzero
    else .ok ({ c with
      inputProcessedInCL := 0
      inputToBeProcessedInCL := req.size.tdiv cacheLineSize
      reqSent := 0 }, true)
  else .ok (c, false)

/-- Offer the next finished line to the agent (`sendDataOut`). -/
def sendDataOut (accepted : Bool) (c : Coder) : Coder × List IpCall :=
  if 0 < c.currOutBuffer ∧ accepted then
    ({ c with reqOutAddr := c.reqOutAddr + 64#64, currOutBuffer := c.currOutBuffer - 1 },
      [.memRequest c.reqOutAddr false])
  else (c, [])

/-- Offer a read of the reference frame to the agent (`requestDependentData`). -/
def requestDependentData (accepted : Bool) (c : Coder) : Coder × List IpCall :=
  -- Reads on the way take places of the input buffer.
  if c.config.inBufferSize ≤ c.reqSent then (c, [])
  else if accepted then
    ({ c with
      dependenceCount := c.dependenceCount - 1
      dependenceAddr := c.dependenceAddr + 64#64
      reqSent := c.reqSent + 1 }, [.memRequest c.dependenceAddr true])
  else (c, [])

/-- Offer a read of the frame's own data to the agent (`requestData`). -/
def requestData (accepted : Bool) (c : Coder) : Coder × List IpCall :=
  if 0 < c.ip.reqCount ∧ c.reqSent < c.config.inBufferSize then
    let (ip, calls) := c.ip.sendMemoryReq accepted
    ({ c with ip := ip, reqSent := if accepted then c.reqSent + 1 else c.reqSent }, calls)
  else (c, [])

/-- The read a tick offers: a decoder fetches the reference frame first. -/
def request (accepted : Bool) (c : Coder) : Coder × List IpCall :=
  match c.config.kind with
  | .decoder =>
    if 0 < c.dependenceCount then c.requestDependentData accepted else c.requestData accepted
  | .encoder | .nocoder => c.requestData accepted

/--
One cycle of the compute unit, in the shape the three classes share.

Nothing happens without `room` lines of output buffer.
A line is in work for `latency` cycles and leaves `produced n` lines when it is the `n`th.
-/
def processWith (room latency : Int) (produced : Int → Int) (c : Coder) : Coder × ProcessEvent :=
  -- The room is asked for before a line starts and in each cycle it is in work.
  if c.config.outBufferSize < c.currOutBuffer + room then (c, .outBufferFull)
  else if 0 < c.ip.cyclesToSkip then
    let c := { c with ip := { c.ip with cyclesToSkip := c.ip.cyclesToSkip - 1 } }
    -- The line is done.
    if c.ip.cyclesToSkip = 0 then
      ({ c with
        inputProcessedInCL := c.inputProcessedInCL + 1
        currOutBuffer := c.currOutBuffer + produced (c.inputProcessedInCL + 1) },
        .trueProcessCycle)
    else (c, .trueProcessCycle)
  else if 0 < c.currInBuffer then
    ({ c with
      ip := { c.ip with cyclesToSkip := latency }
      currInBuffer := c.currInBuffer - 1
      reqSent := c.reqSent - 1 }, .inbufferDataRecvd)
  else (c, .inBufferEmpty)

/-- A decoder turns each line into as many as the ratio says (`GemDroidIPDecoder::process`). -/
def processDecoder (c : Coder) : Coder × ProcessEvent :=
  c.processWith c.config.codingRatio c.config.computeLatency fun _ => c.config.codingRatio

/-- An encoder emits one chunk for a ratio of chunks (`GemDroidIPEncoder::process`). -/
def processEncoder (c : Coder) : Coder × ProcessEvent :=
  c.processWith c.config.targetOutputChunkSizeInCL
    (c.config.computeLatency.tdiv c.config.codingRatio)
    fun n =>
      -- Output appears only when a whole group of lines has been counted.
      if n.tmod (c.config.targetOutputChunkSizeInCL * c.config.codingRatio) = 0 then
        c.config.targetOutputChunkSizeInCL
      else 0

/-- The image processor emits one chunk for each chunk (`GemDroidIPNocoder::process`). -/
def processNocoder (c : Coder) : Coder × ProcessEvent :=
  c.processWith c.config.targetOutputChunkSizeInCL c.config.computeLatency
    fun n =>
      if n.tmod c.config.targetOutputChunkSizeInCL = 0 then
        c.config.targetOutputChunkSizeInCL
      else 0

/-- One cycle of the compute unit (`process`). -/
def process (c : Coder) : Coder × ProcessEvent :=
  match c.config.kind with
  | .decoder => c.processDecoder
  | .encoder => c.processEncoder
  | .nocoder => c.processNocoder

/-- Run the compute unit unless the whole frame went through it. -/
def compute (c : Coder) : Coder :=
  if c.inputProcessedInCL < c.inputToBeProcessedInCL then c.process.1 else c

/-- Report the frame once all of it is processed and written. -/
def complete (c : Coder) : Coder × List IpCall :=
  -- Writes that are still on their way to the memory are not waited for.
  if c.inputProcessedInCL = c.inputToBeProcessedInCL ∧ c.currOutBuffer = 0 then
    ({ c with ip := { c.ip with isBusy := false } },
      [.ipResponse c.ip.coreId c.ip.frameNum c.ip.flowType c.ip.flowId])
  else (c, [])

/-- The work of a busy accelerator in one cycle, with the agent's answer to a write and a read. -/
def work (write read : Bool) (c : Coder) : Coder × List IpCall :=
  -- Output leaves before input is asked for, so that a full buffer can drain.
  let (c, written) := c.sendDataOut write
  let (c, requested) := c.request read
  let (c, reported) := c.compute.complete
  (c, written ++ requested ++ reported)

/-- One clock cycle (`tick`). -/
def tick (governor : Governor) (write read : Bool) (c : Coder) : Coder × List IpCall :=
  let (power, working) := c.ip.power.updatePower governor
  let c := { c with ip := { c.ip with power := power } }
  if working then
    if c.ip.isBusy then c.work write read
    else
      ({ c with ip := { c.ip with power :=
        { c.ip.power with idleCycles := c.ip.power.idleCycles + 1 } } }, [])
  else (c, [])

/-- The accelerator with another state of its power management. -/
def withPower (c : Coder) (power : IpPower) : Coder :=
  { c with ip := { c.ip with power := power } }

theorem tick_cases (governor : Governor) (write read : Bool) (c : Coder) :
    ∃ power, c.tick governor write read = (c.withPower power, []) ∨
      (c.ip.isBusy = true ∧
        c.tick governor write read = (c.withPower power).work write read) := by
  -- The power management decides whether the IP may work, and the busy flag whether it has to.
  unfold tick
  cases updated : c.ip.power.updatePower governor with
  | mk power working =>
  cases working with
  | false => exact ⟨power, .inl rfl⟩
  | true =>
    cases busy : c.ip.isBusy with
    | false =>
      refine ⟨{ power with idleCycles := power.idleCycles + 1 }, .inl ?_⟩
      simp [withPower, busy]
    | true =>
      refine ⟨power, .inr ⟨rfl, ?_⟩⟩
      simp [withPower, busy]

theorem tick_resting {governor : Governor} {write read : Bool} {c : Coder} {power : IpPower}
    (resting : c.ip.power.updatePower governor = (power, false)) :
    c.tick governor write read = (c.withPower power, []) := by
  -- The work is guarded by the answer of the power management.
  unfold tick
  rw [resting]
  rfl

end Coder

end GemDroid
