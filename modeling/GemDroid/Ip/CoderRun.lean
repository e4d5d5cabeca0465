import GemDroid.Ip.Coder
import GemDroid.Lib.Run

/-! Runs of a streaming accelerator, and the conservation of lines while it serves a frame. -/

namespace GemDroid

/-- How a frame stood when the accelerator reported it. -/
structure FrameReport where
  issued : Nat
  processed : Int
  inFlight : Nat
  buffered : Int
  deriving DecidableEq, Repr

/-- An accelerator with its unanswered reads and the requests accepted for the present frame. -/
structure CoderSystem where
  coder : Coder
  inFlight : Nat
  reads : List Addr
  writes : List Addr
  reports : List FrameReport
  deriving DecidableEq, Repr

/-- What can happen to an accelerator, in any order. -/
inductive CoderEvent
  | enqueueIPReq (req : IpRequest)
  | tick (write read : Bool)
  | memResponse (isRead : Bool)
  deriving DecidableEq, Repr

namespace CoderSystem

/-- An accelerator before a frame, with no read in flight. -/
def start (coder : Coder) : CoderSystem :=
  { coder := coder, inFlight := 0, reads := [], writes := [], reports := [] }

/-- Record a call the accelerator made. -/
def record (s : CoderSystem) : IpCall → CoderSystem
  | .memRequest addr true => { s with inFlight := s.inFlight + 1, reads := s.reads ++ [addr] }
  | .memRequest addr false => { s with writes := s.writes ++ [addr] }
  | .ipResponse _ _ _ _ =>
    { s with reports := s.reports ++
      [⟨s.reads.length, s.coder.inputProcessedInCL, s.inFlight, s.coder.currInBuffer⟩] }

/-- The system after the accelerator moved to a new state and made some calls. -/
def absorb (s : CoderSystem) (moved : Coder × List IpCall) : CoderSystem :=
  moved.2.foldl record { s with coder := moved.1 }

/--
One event.

A failed assertion of `enqueueIPReq` ends the run.
A read response is possible only while a read is in flight.
-/
def step (governor : Governor) (s : CoderSystem) : CoderEvent → Option CoderSystem
  | .enqueueIPReq req =>
    match s.coder.enqueueIPReq req with
    | .error _ => none
    | .ok (coder, true) => some { s with coder := coder, reads := [], writes := [] }
    | .ok (coder, false) => some { s with coder := coder }
  | .tick write read => some (s.absorb (s.coder.tick governor write read))
  | .memResponse true =>
    if 0 < s.inFlight then
      some { s with coder := s.coder.memResponse true, inFlight := s.inFlight - 1 }
    else none
  | .memResponse false => some { s with coder := s.coder.memResponse false }

theorem foldl_record_coder (s : CoderSystem) (coder : Coder) {calls : List IpCall}
    (memory : ∀ call ∈ calls, ∃ addr isRead, call = .memRequest addr isRead) :
    { calls.foldl record s with coder := coder } =
      calls.foldl record { s with coder := coder } := by
  -- Only a report reads the accelerator, and the calls contain none.
  induction calls generalizing s with
  | nil => rfl
  | cons call calls ih =>
    obtain ⟨addr, isRead, rfl⟩ := memory call (by simp)
    simp only [List.foldl_cons]
    rw [ih _ (fun call member => memory call (by simp [member]))]
    cases isRead <;> rfl

theorem absorb_absorb (s : CoderSystem) (coder : Coder) {calls : List IpCall}
    (next : Coder × List IpCall)
    (memory : ∀ call ∈ calls, ∃ addr isRead, call = .memRequest addr isRead) :
    (s.absorb (coder, calls)).absorb next = s.absorb (next.1, calls ++ next.2) := by
  -- The state in between is overwritten before anything reads it.
  simp only [absorb, List.foldl_append]
  rw [foldl_record_coder _ _ memory]

end CoderSystem

/-- The lines of output that the first `n` lines of input give. -/
def CoderConfig.linesProduced (config : CoderConfig) (n : Int) : Int :=
  match config.kind with
  | .decoder => config.codingRatio * n
  | .encoder =>
    config.targetOutputChunkSizeInCL *
      (n / (config.targetOutputChunkSizeInCL * config.codingRatio))
  | .nocoder =>
    config.targetOutputChunkSizeInCL * (n / config.targetOutputChunkSizeInCL)

namespace CoderSystem

/--
Nothing is lost or duplicated between the memory and the buffers.

Each read is in flight, buffered, in work or processed, and each line produced is buffered or
written to the next address after the base.
-/
structure Conserved (base : Addr) (s : CoderSystem) : Prop where
  sent : s.coder.reqSent = s.inFlight + s.coder.currInBuffer
  inBound : s.coder.reqSent ≤ s.coder.config.inBufferSize
  outNonneg : 0 ≤ s.coder.currOutBuffer
  outBound : s.coder.currOutBuffer ≤ s.coder.config.outBufferSize
  reads : (s.reads.length : Int) = s.inFlight + s.coder.currInBuffer +
    (if 0 < s.coder.ip.cyclesToSkip then 1 else 0) + s.coder.inputProcessedInCL
  produced : s.coder.config.linesProduced s.coder.inputProcessedInCL =
    s.writes.length + s.coder.currOutBuffer
  writes : s.writes = lineAddrs base s.writes.length

/-- Conservation with the facts that carry it from one cycle to the next. -/
structure FrameInv (base : Addr) (s : CoderSystem) : Prop extends Conserved base s where
  isRead : s.coder.ip.isRead = true
  next : s.coder.reqOutAddr = lineAddr base s.writes.length
  inNonneg : 0 ≤ s.coder.currInBuffer
  skipNonneg : 0 ≤ s.coder.ip.cyclesToSkip
  processedNonneg : 0 ≤ s.coder.inputProcessedInCL

variable {base : Addr} {s : CoderSystem}

theorem FrameInv.withPower (inv : s.FrameInv base)
    (power : IpPower) : FrameInv base { s with coder := s.coder.withPower power } :=
  { inv with }

theorem FrameInv.sendDataOut (inv : s.FrameInv base)
    (accepted : Bool) : FrameInv base (s.absorb (s.coder.sendDataOut accepted)) := by
  -- One line moves from the output buffer to the written ones.
  unfold Coder.sendDataOut
  split
  case isFalse => exact inv
  case isTrue taken =>
    have bound := inv.outBound
    have produced := inv.produced
    refine { inv with
      outNonneg := ?_, outBound := ?_, produced := ?_, writes := ?_, next := ?_ }
    · simp only [absorb, List.foldl_cons, List.foldl_nil, record]
      omega
    · simp only [absorb, List.foldl_cons, List.foldl_nil, record]
      omega
    · simp only [absorb, List.foldl_cons, List.foldl_nil, record, List.length_append,
        List.length_singleton, produced]
      omega
    · simp only [absorb, List.foldl_cons, List.foldl_nil, record, List.length_append,
        List.length_singleton, lineAddrs_succ]
      rw [← inv.writes, inv.next]
    · simp only [absorb, List.foldl_cons, List.foldl_nil, record, List.length_append,
        List.length_singleton]
      rw [inv.next, lineAddr_succ]

theorem FrameInv.read (inv : s.FrameInv base) (addr : Addr) {coder : Coder}
    (room : s.coder.reqSent < s.coder.config.inBufferSize)
    (sent : coder.reqSent = s.coder.reqSent + 1)
    (same : coder.config = s.coder.config ∧ coder.ip.isRead = s.coder.ip.isRead ∧
      coder.ip.cyclesToSkip = s.coder.ip.cyclesToSkip ∧
      coder.currInBuffer = s.coder.currInBuffer ∧ coder.currOutBuffer = s.coder.currOutBuffer ∧
      coder.reqOutAddr = s.coder.reqOutAddr ∧
      coder.inputProcessedInCL = s.coder.inputProcessedInCL) :
    FrameInv base (s.absorb (coder, [.memRequest addr true])) := by
  -- The read is in flight at once, and its place in the input buffer is taken.
  obtain ⟨config, isRead, skip, inBuffer, outBuffer, out, processed⟩ := same
  have balance := inv.sent
  have reads := inv.reads
  constructor
  · constructor <;> simp only [absorb, List.foldl_cons, List.foldl_nil, record, sent, config,
      skip, inBuffer, outBuffer, processed, List.length_append, List.length_singleton]
    · omega
    · omega
    · exact inv.outNonneg
    · exact inv.outBound
    · omega
    · exact inv.produced
    · exact inv.writes
  · exact isRead.trans inv.isRead
  · exact out.trans inv.next
  · exact inBuffer ▸ inv.inNonneg
  · exact skip ▸ inv.skipNonneg
  · exact processed ▸ inv.processedNonneg

theorem FrameInv.requestData (inv : s.FrameInv base)
    (accepted : Bool) : FrameInv base (s.absorb (s.coder.requestData accepted)) := by
  -- The guard of the request is the room that a read needs.
  unfold Coder.requestData Ip.sendMemoryReq
  split
  case isFalse => exact inv
  case isTrue taken =>
    cases accepted with
    | false => exact inv
    | true =>
      simp only [if_true, inv.isRead]
      exact inv.read _ taken.2 rfl ⟨rfl, inv.isRead ▸ rfl, rfl, rfl, rfl, rfl, rfl⟩

theorem FrameInv.request (inv : s.FrameInv base)
    (accepted : Bool) : FrameInv base (s.absorb (s.coder.request accepted)) := by
  -- A decoder reads its reference frame first; all other reads are of the data.
  unfold Coder.request
  split
  · split
    · unfold Coder.requestDependentData
      split
      · exact inv
      case isFalse room =>
        cases accepted with
        | false => exact inv
        | true => exact inv.read _ (by omega) rfl ⟨rfl, rfl, rfl, rfl, rfl, rfl, rfl⟩
    · exact inv.requestData accepted
  · exact inv.requestData accepted
  · exact inv.requestData accepted

/-- A cycle of a compute unit whose output fits the room it waits for. -/
theorem FrameInv.processWith (inv : s.FrameInv base) {room latency : Int} {produced : Int → Int}
    (works : 0 < latency) (fits : ∀ n, 0 ≤ produced n ∧ produced n ≤ room)
    (adds : ∀ n, 0 ≤ n → s.coder.config.linesProduced (n + 1) =
      s.coder.config.linesProduced n + produced (n + 1)) :
    FrameInv base { s with coder := (s.coder.processWith room latency produced).1 } := by
  have skipNonneg := inv.skipNonneg
  have processedNonneg := inv.processedNonneg
  have reads := inv.reads
  have sent := inv.sent
  unfold Coder.processWith
  split
  case isTrue => exact inv
  case isFalse roomy =>
    split
    case isTrue working =>
      rw [if_pos working] at reads
      dsimp only
      split
      case isTrue last =>
        -- The line is done: it is counted as processed and its output fills the buffer.
        have amount := fits (s.coder.inputProcessedInCL + 1)
        have outNonneg := inv.outNonneg
        have balance := inv.produced
        have gained := adds _ processedNonneg
        refine { inv with
          outNonneg := ?_, outBound := ?_, reads := ?_, produced := ?_, skipNonneg := ?_,
          processedNonneg := ?_ }
        · dsimp only
          omega
        · dsimp only
          omega
        · simp only [last, Int.lt_irrefl, if_false]
          omega
        · dsimp only
          omega
        · exact Int.le_of_eq last.symm
        · dsimp only
          omega
      case isFalse more =>
        have left : 0 < s.coder.ip.cyclesToSkip - 1 := by omega
        refine { inv with reads := ?_, skipNonneg := ?_ }
        · simp only [left, if_true]
          omega
        · dsimp only
          omega
    case isFalse free =>
      rw [if_neg free] at reads
      split
      case isTrue waiting =>
        -- A buffered line goes to work and frees its place in the buffer.
        have bound := inv.inBound
        refine { inv with
          sent := ?_, inBound := ?_, reads := ?_, inNonneg := ?_, skipNonneg := ?_ }
        · dsimp only
          omega
        · dsimp only
          omega
        · simp only [works, if_true]
          omega
        · dsimp only
          omega
        · dsimp only
          omega
      case isFalse => exact inv

private theorem chunks_succ (chunk : Int) {width n : Int} (positive : 0 < width)
    (nonneg : 0 ≤ n) :
    chunk * ((n + 1) / width) =
      chunk * (n / width) + if (n + 1).tmod width = 0 then chunk else 0 := by
  -- The remainder is zero exactly where the quotient steps.
  rw [Int.tmod_eq_emod_of_nonneg (by omega), Rounding.succ_ediv n positive, Int.mul_add]
  split <;> simp

theorem FrameInv.process (inv : s.FrameInv base) :
    FrameInv base { s with coder := s.coder.process.1 } := by
  have latency := s.coder.config.latencyPositive
  have ratio := s.coder.config.ratioPositive
  have chunk := s.coder.config.chunkPositive
  unfold Coder.process
  split
  case h_1 kind =>
    refine inv.processWith (by omega) (fun _ => by omega) fun n _ => ?_
    simp only [CoderConfig.linesProduced, kind, Int.mul_add, Int.mul_one]
  case h_2 kind =>
    -- The latency of one line is a share of the whole, and at least one cycle.
    have share : 0 < s.coder.config.computeLatency.tdiv s.coder.config.codingRatio := by
      rw [Int.tdiv_eq_ediv_of_nonneg (by omega)]
      have covers := s.coder.config.latencyCovers kind
      exact Int.le_ediv_of_mul_le (by omega) (by omega)
    refine inv.processWith share (fun _ => by split <;> omega) fun n nonneg => ?_
    simp only [CoderConfig.linesProduced, kind]
    exact chunks_succ _ (Int.mul_pos (by omega) (by omega)) nonneg
  case h_3 kind =>
    refine inv.processWith (by omega) (fun _ => by split <;> omega) fun n nonneg => ?_
    simp only [CoderConfig.linesProduced, kind]
    exact chunks_succ _ (by omega) nonneg

theorem FrameInv.compute (inv : s.FrameInv base) :
    FrameInv base { s with coder := s.coder.compute } := by
  -- The guard stops the compute unit at the end of the frame.
  unfold Coder.compute
  split
  · exact inv.process
  · exact inv

theorem FrameInv.complete (inv : s.FrameInv base) :
    FrameInv base (s.absorb s.coder.complete) := by
  -- The report clears the busy flag only.
  unfold Coder.complete
  split
  · exact { inv with }
  · exact inv

theorem FrameInv.readResponse (inv : s.FrameInv base) (flying : 0 < s.inFlight) :
    FrameInv base
      { s with coder := s.coder.memResponse true, inFlight := s.inFlight - 1 } := by
  -- What was in flight is now buffered, and their sum stays.
  have sent := inv.sent
  have reads := inv.reads
  have inNonneg := inv.inNonneg
  refine { inv with sent := ?_, reads := ?_, inNonneg := ?_ }
  · simp only [Coder.memResponse, if_true]
    omega
  · simp only [Coder.memResponse, Ip.memResponse, if_true]
    omega
  · simp only [Coder.memResponse, if_true]
    omega

theorem FrameInv.writeResponse (inv : s.FrameInv base) :
    FrameInv base { s with coder := s.coder.memResponse false } :=
  { inv with }

end CoderSystem

namespace Coder

theorem sendDataOut_memory (accepted : Bool) (c : Coder) :
    ∀ call ∈ (c.sendDataOut accepted).2, ∃ addr isRead, call = .memRequest addr isRead := by
  unfold sendDataOut
  split <;> simp

theorem request_memory (accepted : Bool) (c : Coder) :
    ∀ call ∈ (c.request accepted).2, ∃ addr isRead, call = .memRequest addr isRead := by
  -- The data request is the base class's, so it is named once for the three classes.
  have data : ∀ call ∈ (c.requestData accepted).2, ∃ addr isRead,
      call = .memRequest addr isRead := by
    unfold requestData Ip.sendMemoryReq
    split
    · intro call member
      cases accepted
      · simp at member
      · exact ⟨_, _, List.mem_singleton.mp member⟩
    · simp
  unfold request requestDependentData
  split
  · split
    · split
      · simp
      · cases accepted <;> simp
    · exact data
  · exact data
  · exact data

end Coder

namespace CoderSystem

theorem absorb_work (s : CoderSystem) (write read : Bool) :
    s.absorb (s.coder.work write read) =
      ((s.absorb (s.coder.sendDataOut write)).absorb
        ((s.coder.sendDataOut write).1.request read)).absorb
        ((s.coder.sendDataOut write).1.request read).1.compute.complete := by
  -- The calls of the first two parts go to the memory, so the parts can be taken in turn.
  rw [absorb_absorb _ _ _ (s.coder.sendDataOut_memory write), absorb_absorb]
  · rfl
  · intro call member
    rcases List.mem_append.mp member with written | requested
    · exact s.coder.sendDataOut_memory write call written
    · exact (s.coder.sendDataOut write).1.request_memory read call requested

@[simp] theorem absorb_coder (s : CoderSystem) (moved : Coder × List IpCall) :
    (s.absorb moved).coder = moved.1 := by
  -- No record touches the accelerator.
  have kept : ∀ (calls : List IpCall) (t : CoderSystem),
      (calls.foldl record t).coder = t.coder := by
    intro calls
    induction calls with
    | nil => exact fun _ => rfl
    | cons call calls ih =>
      intro t
      rw [List.foldl_cons, ih]
      unfold record
      split <;> rfl
  exact kept _ _

theorem work_parts {holds : CoderSystem → Prop} {s : CoderSystem} (write read : Bool)
    (out : ∀ s : CoderSystem, holds s → holds (s.absorb (s.coder.sendDataOut write)))
    (inp : ∀ s : CoderSystem, holds s → holds (s.absorb (s.coder.request read)))
    (compute : ∀ s : CoderSystem, holds s → holds { s with coder := s.coder.compute })
    (start : holds s) :
    ∃ t : CoderSystem, holds t ∧
      s.absorb (s.coder.work write read) = t.absorb t.coder.complete := by
  -- Each part starts from the state that the part before it left.
  have written := out s start
  have requested := inp _ written
  rw [absorb_coder] at requested
  have computed := compute _ requested
  rw [absorb_coder] at computed
  exact ⟨_, computed, absorb_work s write read⟩

theorem FrameInv.tick {base : Addr} {s : CoderSystem} (inv : s.FrameInv base)
    (governor : Governor) (write read : Bool) :
    FrameInv base (s.absorb (s.coder.tick governor write read)) := by
  -- A tick passes time or does a cycle of work.
  obtain ⟨power, pass | ⟨-, work⟩⟩ := s.coder.tick_cases governor write read
  · rw [pass]
    exact inv.withPower power
  · rw [work]
    obtain ⟨t, worked, same⟩ := work_parts write read (fun _ inv => inv.sendDataOut write)
      (fun _ inv => inv.request read) (fun _ inv => inv.compute) (inv.withPower power)
    exact same ▸ worked.complete

/-- The event starts no new frame: a request that comes meanwhile is refused. -/
def SameFrame (s : CoderSystem) : CoderEvent → Prop
  | .enqueueIPReq _ => s.coder.ip.isBusy = true
  | .tick _ _ | .memResponse _ => True

theorem FrameInv.step {base : Addr} {governor : Governor} {s t : CoderSystem} {e : CoderEvent}
    (inv : s.FrameInv base) (same : s.SameFrame e) (taken : s.step governor e = some t) :
    t.FrameInv base := by
  -- Within a frame the accelerator is busy, so it refuses every further request.
  cases e with
  | enqueueIPReq req =>
    have busy : s.coder.ip.isBusy = true := same
    have refused : s.coder.enqueueIPReq req = .ok (s.coder, false) := by
      simp [Coder.enqueueIPReq, Ip.enqueueIPReq, busy]
    simp only [CoderSystem.step, refused, Option.some.injEq] at taken
    exact taken ▸ inv
  | tick write read =>
    simp only [CoderSystem.step, Option.some.injEq] at taken
    exact taken ▸ inv.tick governor write read
  | memResponse isRead =>
    cases isRead with
    | true =>
      simp only [CoderSystem.step] at taken
      split at taken
      case isTrue flying =>
        simp only [Option.some.injEq] at taken
        exact taken ▸ inv.readResponse flying
      case isFalse => simp at taken
    | false =>
      simp only [CoderSystem.step, Option.some.injEq] at taken
      exact taken ▸ inv.writeResponse

end CoderSystem

namespace Coder

/-- An instance between frames: not busy, its buffers empty, and no latency of its own. -/
structure Ready (c : Coder) : Prop where
  free : c.ip.isBusy = false
  inEmpty : c.currInBuffer = 0
  outEmpty : c.currOutBuffer = 0
  noLatency : c.ip.ioLatency = 0

/-- What the assertions of `enqueueIPReq` leave of a ready instance that accepts a frame. -/
def accept (req : IpRequest) (c : Coder) : Coder :=
  { splitReads req { c with ip := (c.ip.enqueueIPReq req).1, reqOutAddr := c.outputBase } with
    inputProcessedInCL := 0
    inputToBeProcessedInCL := req.size.tdiv cacheLineSize
    reqSent := 0 }

theorem Ready.enqueueIPReq {c : Coder} (ready : c.Ready) (req : IpRequest) :
    c.enqueueIPReq req = .ok (c.accept req, true) := by
  have accepted : (c.ip.enqueueIPReq req).2 = true := by simp [Ip.enqueueIPReq, ready.free]
  simp [Coder.enqueueIPReq, accepted, ready.inEmpty, ready.outEmpty, accept]

end Coder

namespace CoderSystem

/-- Lines are conserved where a frame begins: none was read and none produced. -/
theorem frameInv_accept {c : Coder} (ready : c.Ready) {req : IpRequest}
    (isRead : req.isRead = true) (reports : List FrameReport) :
    FrameInv c.outputBase
      { coder := c.accept req, inFlight := 0, reads := [], writes := [], reports := reports } := by
  -- All counters start at zero, and the buffers of a ready instance are empty.
  have skip : (c.accept req).ip.cyclesToSkip = 0 := by
    simp [Coder.accept, Ip.enqueueIPReq, ready.free, ready.noLatency]
  have emptyIn : (c.accept req).currInBuffer = 0 := by simp [Coder.accept, ready.inEmpty]
  have emptyOut : (c.accept req).currOutBuffer = 0 := by simp [Coder.accept, ready.outEmpty]
  constructor
  · constructor
    · simp only [emptyIn]
      rfl
    · exact (c.accept req).config.inBufferNonneg
    · exact Int.le_of_eq emptyOut.symm
    · rw [emptyOut]
      exact (c.accept req).config.outBufferNonneg
    · simp only [emptyIn, skip]
      rfl
    · have none : ∀ config : CoderConfig, config.linesProduced 0 = 0 := by
        intro config
        unfold CoderConfig.linesProduced
        split <;> simp
      rw [emptyOut]
      exact none _
    · rfl
  · simp [Coder.accept, Ip.enqueueIPReq, ready.free, isRead]
  · simp [Coder.accept]
  · exact Int.le_of_eq emptyIn.symm
  · exact Int.le_of_eq skip.symm
  · exact Int.le_refl 0

/--
While an accelerator serves one frame, every read and every line of output is accounted for.

The run starts from any instance between frames and may end anywhere before the next frame.
-/
theorem frame_conserved (governor : Governor) (c : Coder) (ready : c.Ready) (req : IpRequest)
    (isRead : req.isRead = true) (first : CoderSystem)
    (accepted : (start c).step governor (.enqueueIPReq req) = some first)
    (es : List CoderEvent) (s : CoderSystem)
    (same : Machine.Meets (step governor) SameFrame first es)
    (ran : Machine.run (step governor) first es = some s) : s.Conserved c.outputBase := by
  -- The accepted frame establishes the invariant, and every later event keeps it.
  have begun : FrameInv c.outputBase first := by
    simp only [CoderSystem.step, start, ready.enqueueIPReq req, Option.some.injEq] at accepted
    exact accepted ▸ frameInv_accept ready isRead []
  exact (Machine.run_preserves_of_meets (fun _ _ _ inv allowed taken => inv.step allowed taken)
    begun same ran).toConserved

/-- The figures of the video decoder. -/
def videoDecoderConfig : CoderConfig where
  kind := .decoder
  computeLatency := 12
  inBufferSize := 24
  outBufferSize := 64
  codingRatio := vidCodingRatio
  targetOutputChunkSizeInCL := 1
  latencyPositive := by decide
  ratioPositive := by decide
  latencyCovers := by decide
  chunkPositive := by decide
  inBufferNonneg := by decide
  outBufferNonneg := by decide

/-- The video decoder as it is after `init`, in memory that held zeros. -/
def videoDecoder : Coder :=
  Coder.init
    { config := videoDecoderConfig
      ip := {
        power := {
          ipType := .vd, isDevice := false, powerState := .idle, idleCycles := 0,
          cyclesToWake := 0, dvfs := ⟨.vd, 2, 0, 1, 0⟩ }
        ioLatency := 0, coreId := 0, flowType := 0, flowId := 0, reqCount := 0, respCount := 0,
        dataSize := 0, isBusy := false, reqAddr := 0, isRead := false, frameNum := 0,
        cyclesToSkip := 0 }
      currInBuffer := 0, currOutBuffer := 0, reqOutAddr := 0, reqSent := 0,
      inputProcessedInCL := 0, inputToBeProcessedInCL := 0, dependenceCount := 0,
      dependenceAddr := 0 }
    videoDecoderConfig .vd ⟨.vd, 2, 0, 1, 0⟩

/-- A frame for the video decoder. -/
def videoFrame (frameNum size : Int) : IpRequest :=
  { coreId := 0, addr := BitVec.ofInt 64 IpType.vd.addrStart, size := size, isRead := true,
    frameNum := frameNum, flowType := IpType.dc.code, flowId := 0 }

/-- The accelerator once it is active. -/
def awake (s : CoderSystem) : CoderSystem :=
  { s with coder := { s.coder with ip := { s.coder.ip with power := { s.coder.ip.power with
      powerState := .active, cyclesToWake := 0, idleCycles := 0 } } } }

/-- An active decoder reads a frame of two lines and is still writing the first sixteen. -/
theorem two_line_frame_conserved :
    ∃ first s es, (start videoDecoder).awake.step .disabled
        (.enqueueIPReq (videoFrame 0 128)) = some first ∧
      Machine.run (step .disabled) first es = some s ∧ s.reads.length = 2 ∧
      s.writes.length = 3 ∧ s.Conserved videoDecoder.outputBase := by
  let es : List CoderEvent :=
    [.tick true true, .memResponse true, .tick true true, .memResponse true] ++
      List.replicate 15 (.tick true true)
  let active := (start videoDecoder).awake.coder
  have short : (Machine.run (step .disabled)
      { start videoDecoder with coder := active.accept (videoFrame 0 128) } es).any (fun s =>
        s.reads.length = 2 ∧ s.writes.length = 3) = true := by
    decide +kernel
  obtain ⟨s, ran, checked⟩ := (Option.any_eq_true _ _).mp short
  obtain ⟨reads, writes⟩ := of_decide_eq_true checked
  have accepted : (start active).step .disabled (.enqueueIPReq (videoFrame 0 128)) =
      some { start videoDecoder with coder := active.accept (videoFrame 0 128) } := rfl
  refine ⟨_, s, es, accepted, ran, reads, writes, ?_⟩
  refine frame_conserved .disabled active ⟨rfl, rfl, rfl, rfl⟩ _ rfl _ accepted es s ?_ ran
  -- The frame is the only request of the run.
  apply Machine.meets_of_forall
  intro e among t
  cases e with
  | enqueueIPReq req => simp [es] at among
  | tick write read => trivial
  | memResponse isRead => trivial

end CoderSystem

end GemDroid
