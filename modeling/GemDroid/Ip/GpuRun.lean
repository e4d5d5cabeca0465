import Mathlib.Data.List.Basic
import GemDroid.Ip.Gpu

/-! The memory requests of the GPU against the lines of its trace. -/

namespace GemDroid

/-- The lines of a frame in the memory of the display. -/
def frameLines : Nat :=
  (frameSize / cacheLineSize).toNat

/-- The write of a line of the frame. -/
def frameWrite (i : Nat) : IpCall :=
  .memRequest (BitVec.ofInt 64 (dc1AddrStart + cacheLineSize * i)) false

/-- The report of a frame to the display. -/
def frameReport (frame : Int) : IpCall :=
  .ipResponse 0 frame IpType.dc.code 0

/-- The writes of a frame from some line on, and the report behind them. -/
def frameCallsFrom (frame : Int) (i : Nat) : List IpCall :=
  (List.range' i (frameLines - i)).map frameWrite ++ [frameReport frame]

namespace GpuLine

/-- What a line asks of the agent, given the number of frames before it. -/
def calls (frame : Int) : GpuLine → List IpCall
  | .gmuLd addr => [.memRequest (addr + BitVec.ofInt 64 IpType.gpu.addrStart) true]
  | .rendered => frameCallsFrom frame 0
  | .gpu _ | .gmuSt _ | .endOfTrace | .unknown => []

/-- The number of frames that some lines render. -/
def frames (lines : List GpuLine) : Int :=
  lines.count .rendered

/-- What the lines of a trace ask of the agent one after the other. -/
def callsOf (frame : Int) : List GpuLine → List IpCall
  | [] => []
  | line :: lines => line.calls frame ++ callsOf (frame + GpuLine.frames [line]) lines

theorem callsOf_concat (frame : Int) (lines : List GpuLine) (line : GpuLine) :
    callsOf frame (lines ++ [line]) =
      callsOf frame lines ++ line.calls (frame + GpuLine.frames lines) := by
  induction lines generalizing frame with
  | nil => simp [callsOf, GpuLine.frames]
  | cons first lines ih =>
    have count : frame + GpuLine.frames [first] + GpuLine.frames lines =
        frame + GpuLine.frames (first :: lines) := by
      simp only [GpuLine.frames, List.count_cons, List.count_nil]
      push_cast
      ring
    rw [List.cons_append, callsOf, callsOf, ih, count, List.append_assoc]

theorem frames_concat (lines : List GpuLine) (line : GpuLine) :
    GpuLine.frames (lines ++ [line]) =
      GpuLine.frames lines + if line = .rendered then 1 else 0 := by
  rw [GpuLine.frames, List.count_append, List.count_singleton]
  push_cast
  simp only [GpuLine.frames, beq_iff_eq]

end GpuLine

/-- The call is a request to the memory. -/
def IpCall.isMemRequest : IpCall → Bool
  | .memRequest _ _ => true
  | .ipResponse _ _ _ _ => false

namespace Gpu

/-- The request that waits in the slot. -/
def waiting (g : Gpu) : List IpCall :=
  if 0 < g.ip.reqCount then [.memRequest g.ip.reqAddr g.ip.isRead] else []

/-- The line of the frame that is written next. -/
def nextLine (g : Gpu) : Nat :=
  ((g.frames.addrToDC - dc1AddrStart) / cacheLineSize).toNat

/-- What is still to be asked for the frame that is written. -/
def toCome (g : Gpu) : List IpCall :=
  if g.frames.writeToDCFlag then frameCallsFrom g.framesDisplayed g.nextLine else []

/--
The requests taken are those asked for, but for one at most, and what has been asked for is what the
lines that were read ask, but for the rest of the last frame.
-/
structure InOrder (trace : List GpuLine) (g : Gpu) : Prop where
  taken : g.asked.filter IpCall.isMemRequest = g.taken ++ g.waiting
  oneWaits : g.waiting.length ≤ 1
  asked : ∃ read, trace = read ++ g.trace ∧ g.asked ++ g.toCome = GpuLine.callsOf 0 read

/-- What holds of the GPU between two events. -/
structure Inv (trace : List GpuLine) (g : Gpu) : Prop where
  taken : g.asked.filter IpCall.isMemRequest = g.taken ++ g.waiting
  slot : g.ip.reqCount ≤ 1
  asked : ∃ read, trace = read ++ g.trace ∧ g.asked ++ g.toCome = GpuLine.callsOf 0 read ∧
    g.framesDisplayed + (if g.frames.writeToDCFlag then 1 else 0) = GpuLine.frames read
  place : g.frames.writeToDCFlag = true →
    ∃ i, i < frameLines ∧ g.frames.addrToDC = dc1AddrStart + cacheLineSize * i

variable {env : GpuTickEnv} {g h : Gpu} {trace : List GpuLine}

/-- The GPU has asked for the same and has the same left to do. -/
structure SameRequests (g h : Gpu) : Prop where
  reqCount : h.ip.reqCount = g.ip.reqCount
  reqAddr : h.ip.reqAddr = g.ip.reqAddr
  isRead : h.ip.isRead = g.ip.isRead
  writeToDCFlag : h.frames.writeToDCFlag = g.frames.writeToDCFlag
  addrToDC : h.frames.addrToDC = g.frames.addrToDC
  framesDisplayed : h.framesDisplayed = g.framesDisplayed
  trace : h.trace = g.trace
  asked : h.asked = g.asked
  taken : h.taken = g.taken

theorem Inv.congr (inv : g.Inv trace) (same : SameRequests g h) : h.Inv trace where
  taken := by
    simp only [waiting, same.asked, same.taken, same.reqCount, same.reqAddr, same.isRead]
    exact inv.taken
  slot := same.reqCount ▸ inv.slot
  asked := by
    obtain ⟨read, split, asked, frames⟩ := inv.asked
    refine ⟨read, same.trace ▸ split, ?_, ?_⟩
    · simpa only [toCome, nextLine, same.asked, same.writeToDCFlag, same.framesDisplayed,
        same.addrToDC] using asked
    · simpa only [same.writeToDCFlag, same.framesDisplayed] using frames
  place := by
    rw [same.writeToDCFlag, same.addrToDC]
    exact inv.place

theorem countPower_same (env : GpuTickEnv) (g : Gpu) : SameRequests g (g.countPower env).1 :=
  ⟨rfl, rfl, rfl, rfl, rfl, rfl, rfl, rfl, rfl⟩

theorem waitFps_same (env : GpuTickEnv) (g : Gpu) : SameRequests g (g.waitFps env) := by
  unfold waitFps
  dsimp only
  split <;> exact ⟨rfl, rfl, rfl, rfl, rfl, rfl, rfl, rfl, rfl⟩

theorem Inv.all_taken (inv : g.Inv trace) (free : g.ip.reqCount ≤ 0) :
    g.asked.filter IpCall.isMemRequest = g.taken := by
  have none_waits : g.waiting = [] := if_neg (by omega)
  rw [inv.taken, none_waits, List.append_nil]

theorem sendMemoryReq_parts (accepted : Bool) (one : g.ip.reqCount = 1) :
    (g.sendMemoryReq accepted).taken ++ (g.sendMemoryReq accepted).waiting =
        g.taken ++ g.waiting ∧
      (g.sendMemoryReq accepted).ip.reqCount = (if accepted then 0 else 1) := by
  cases accepted <;> simp [sendMemoryReq, Ip.sendMemoryReq, waiting, one]

theorem sendMemoryReq_rest (accepted : Bool) (g : Gpu) :
    (g.sendMemoryReq accepted).frames = g.frames ∧
      (g.sendMemoryReq accepted).framesDisplayed = g.framesDisplayed ∧
      (g.sendMemoryReq accepted).trace = g.trace ∧
      (g.sendMemoryReq accepted).asked = g.asked := by
  cases accepted <;> exact ⟨rfl, rfl, rfl, rfl⟩

theorem Inv.sendMemoryReq (inv : g.Inv trace) (accepted : Bool) (waits : 0 < g.ip.reqCount) :
    (g.sendMemoryReq accepted).Inv trace ∧
      (accepted = true → (g.sendMemoryReq accepted).ip.reqCount ≤ 0) := by
  have slot := inv.slot
  obtain ⟨parts, count⟩ := sendMemoryReq_parts accepted (show g.ip.reqCount = 1 by omega)
  obtain ⟨frames, displayed, lines, asked⟩ := sendMemoryReq_rest accepted g
  refine ⟨⟨?_, ?_, ?_, ?_⟩, fun yes => ?_⟩
  · rw [asked, parts, inv.taken]
  · rw [count]
    split <;> omega
  · rw [asked, lines, displayed, toCome, nextLine, frames, displayed]
    exact inv.asked
  · rw [frames]
    exact inv.place
  · rw [count, if_pos yes]

theorem processMMURequest_parts (all : g.asked.filter IpCall.isMemRequest = g.taken)
    (accepted : Bool) (addr : Addr) (isRead : Bool) :
    (g.processMMURequest accepted addr isRead).asked.filter IpCall.isMemRequest =
        (g.processMMURequest accepted addr isRead).taken ++
          (g.processMMURequest accepted addr isRead).waiting ∧
      (g.processMMURequest accepted addr isRead).ip.reqCount ≤ 1 := by
  unfold processMMURequest
  obtain ⟨parts, count⟩ := sendMemoryReq_parts (g := { g with
    ip := { g.ip with reqCount := 1, reqAddr := addr, isRead }
    asked := g.asked ++ [.memRequest addr isRead] }) accepted rfl
  obtain ⟨-, -, -, asked⟩ := sendMemoryReq_rest accepted { g with
    ip := { g.ip with reqCount := 1, reqAddr := addr, isRead }
    asked := g.asked ++ [.memRequest addr isRead] }
  refine ⟨?_, ?_⟩
  · rw [asked, parts, List.filter_append, all]
    rfl
  · rw [count]
    split <;> omega

theorem processMMURequest_rest (accepted : Bool) (addr : Addr) (isRead : Bool) (g : Gpu) :
    (g.processMMURequest accepted addr isRead).frames = g.frames ∧
      (g.processMMURequest accepted addr isRead).framesDisplayed = g.framesDisplayed ∧
      (g.processMMURequest accepted addr isRead).trace = g.trace ∧
      (g.processMMURequest accepted addr isRead).asked =
        g.asked ++ [.memRequest addr isRead] :=
  sendMemoryReq_rest accepted { g with
    ip := { g.ip with reqCount := 1, reqAddr := addr, isRead }
    asked := g.asked ++ [.memRequest addr isRead] }

theorem Inv.skipLine {line : GpuLine} {rest : List GpuLine} (inv : g.Inv trace)
    (next : g.trace = line :: rest) (silent : ∀ frame, line.calls frame = [])
    (plain : line ≠ .rendered) : { g with trace := rest }.Inv trace where
  taken := inv.taken
  slot := inv.slot
  asked := by
    obtain ⟨read, split, asked, frames⟩ := inv.asked
    refine ⟨read ++ [line], by rw [split, next, List.append_assoc, List.singleton_append], ?_, ?_⟩
    · rw [GpuLine.callsOf_concat, silent, List.append_nil]
      exact asked
    · rw [GpuLine.frames_concat, if_neg plain, add_zero]
      exact frames
  place := inv.place

theorem Inv.readLoad {addr : Addr} {rest : List GpuLine} (inv : g.Inv trace)
    (free : g.ip.reqCount ≤ 0) (idle : g.frames.writeToDCFlag = false)
    (next : g.trace = .gmuLd addr :: rest) (accepted : Bool) :
    (processMMURequest accepted (addr + BitVec.ofInt 64 IpType.gpu.addrStart) true
      { g with trace := rest }).Inv trace := by
  obtain ⟨taken, slot⟩ := processMMURequest_parts (g := { g with trace := rest })
    (inv.all_taken free) accepted (addr + BitVec.ofInt 64 IpType.gpu.addrStart) true
  obtain ⟨frames, displayed, lines, asked⟩ := processMMURequest_rest accepted
    (addr + BitVec.ofInt 64 IpType.gpu.addrStart) true { g with trace := rest }
  obtain ⟨read, split, before, count⟩ := inv.asked
  have no_frame : g.toCome = [] := by rw [toCome, idle]; rfl
  refine ⟨taken, slot, ⟨read ++ [.gmuLd addr], ?_, ?_, ?_⟩, ?_⟩
  · rw [lines, split, next, List.append_assoc, List.singleton_append]
  · rw [no_frame, List.append_nil] at before
    rw [GpuLine.callsOf_concat, asked, toCome, frames, if_neg (by simp [idle]), List.append_nil,
      before]
    rfl
  · rw [GpuLine.frames_concat, frames, displayed,
      if_neg (show ¬GpuLine.gmuLd addr = .rendered by simp), add_zero]
    exact count
  · rw [frames]
    exact inv.place

theorem Inv.readRendered {rest : List GpuLine} (inv : g.Inv trace)
    (idle : g.frames.writeToDCFlag = false) (next : g.trace = .rendered :: rest)
    (globalTicks : Int) :
    { g with trace := rest, frames := g.frames.rendered globalTicks }.Inv trace := by
  have flag : (g.frames.rendered globalTicks).writeToDCFlag = true := by
    unfold GpuFrames.rendered
    dsimp only
    split <;> rfl
  have place : (g.frames.rendered globalTicks).addrToDC = dc1AddrStart := by
    unfold GpuFrames.rendered
    dsimp only
    split <;> rfl
  obtain ⟨read, split, before, count⟩ := inv.asked
  have no_frame : g.toCome = [] := by rw [toCome, idle]; rfl
  rw [idle, if_neg Bool.false_ne_true, add_zero] at count
  rw [no_frame, List.append_nil] at before
  refine ⟨inv.taken, inv.slot, ⟨read ++ [.rendered], ?_, ?_, ?_⟩, fun _ => ⟨0, ?_, ?_⟩⟩
  · rw [split, next, List.append_assoc, List.singleton_append]
  · have first : ({ g with trace := rest, frames := g.frames.rendered globalTicks } : Gpu).toCome =
        frameCallsFrom g.framesDisplayed 0 := by
      simp only [toCome, nextLine, flag, if_true, place, sub_self, Int.zero_ediv, Int.toNat_zero]
    rw [GpuLine.callsOf_concat, first, ← before, ← count, zero_add]
    rfl
  · rw [GpuLine.frames_concat, ← count]
    simp only [flag, if_true]
  · decide
  · simp only [place, Nat.cast_zero, mul_zero, add_zero]

theorem Inv.readLine (inv : g.Inv trace) (free : g.ip.reqCount ≤ 0)
    (idle : g.frames.writeToDCFlag = false) (read : g.readLine env = some h) : h.Inv trace := by
  unfold Gpu.readLine at read
  split at read
  · cases read
  · rename_i line rest next
    cases line with
    | gpu insns =>
      dsimp only at read
      split at read
      · cases read
        exact (inv.skipLine next (fun _ => rfl) (by simp)).congr
          ⟨rfl, rfl, rfl, rfl, rfl, rfl, rfl, rfl, rfl⟩
      · cases read
    | gmuSt addr =>
      cases read
      exact inv.skipLine next (fun _ => rfl) (by simp)
    | gmuLd addr =>
      cases read
      exact inv.readLoad free idle next env.acceptsNew
    | rendered =>
      cases read
      exact inv.readRendered idle next env.globalTicks
    | endOfTrace =>
      cases read
      exact inv.skipLine next (fun _ => rfl) (by simp)
    | unknown => cases read

theorem frameCallsFrom_step {i : Nat} (inside : i < frameLines) (frame : Int) :
    frameCallsFrom frame i = frameWrite i :: frameCallsFrom frame (i + 1) := by
  obtain ⟨more, count⟩ : ∃ more, frameLines - i = more + 1 := ⟨frameLines - i - 1, by omega⟩
  have fewer : frameLines - (i + 1) = more := by omega
  rw [frameCallsFrom, frameCallsFrom, count, fewer, List.range'_succ, List.map_cons,
    List.cons_append]

theorem frameCallsFrom_end (frame : Int) :
    frameCallsFrom frame frameLines = [frameReport frame] := by
  rw [frameCallsFrom, Nat.sub_self, List.range'_zero, List.map_nil, List.nil_append]

/-- A line of the frame is written, and the report follows the last one. -/
theorem Inv.writeToDC (inv : g.Inv trace) (free : g.ip.reqCount ≤ 0)
    (writing : g.frames.writeToDCFlag = true) : (g.writeToDC env).Inv trace := by
  obtain ⟨i, inside, place⟩ := inv.place writing
  obtain ⟨taken, slot⟩ := processMMURequest_parts (inv.all_taken free) env.acceptsNew
    (BitVec.ofInt 64 g.frames.addrToDC) false
  obtain ⟨frames, displayed, lines, asked⟩ := processMMURequest_rest env.acceptsNew
    (BitVec.ofInt 64 g.frames.addrToDC) false g
  obtain ⟨read, split, before, count⟩ := inv.asked
  have here : g.nextLine = i := by
    rw [nextLine, place, add_sub_cancel_left, Int.mul_ediv_cancel_left _ (by decide),
      Int.toNat_natCast]
  have write : IpCall.memRequest (BitVec.ofInt 64 g.frames.addrToDC) false = frameWrite i := by
    rw [place, frameWrite]
  -- What is still to come begins with the write of this line.
  have rest : g.toCome = frameWrite i :: frameCallsFrom g.framesDisplayed (i + 1) := by
    rw [toCome, if_pos writing, here, frameCallsFrom_step inside]
  have next : g.frames.addrToDC + cacheLineSize =
      dc1AddrStart + cacheLineSize * ((i + 1 : Nat) : Int) := by
    rw [place]
    push_cast
    ring
  have size : frameSize = cacheLineSize * (frameLines : Int) := by decide
  rw [writing, if_pos rfl] at count
  unfold Gpu.writeToDC
  dsimp only
  rw [frames, next]
  split
  · -- The line was the last one.
    rename_i reached
    have last : i + 1 = frameLines := by
      rw [size, cacheLineSize] at reached
      omega
    refine ⟨?_, slot, ⟨read, by rw [lines]; exact split, ?_, ?_⟩, fun more => by cases more⟩
    · rw [List.filter_append, taken]
      exact List.append_nil _
    · rw [rest, last, frameCallsFrom_end] at before
      rw [← before, displayed, asked, write]
      simp only [toCome, Bool.false_eq_true, if_false, List.append_nil, List.append_assoc,
        List.cons_append, List.nil_append, frameReport]
    · rw [displayed]
      simpa using count
  · rename_i more
    have inside' : i + 1 < frameLines := by
      rw [size, cacheLineSize] at more
      omega
    refine ⟨taken, slot, ⟨read, by rw [lines]; exact split, ?_, ?_⟩, fun _ => ⟨i + 1, inside', rfl⟩⟩
    · rw [rest] at before
      have later : nextLine { processMMURequest env.acceptsNew
          (BitVec.ofInt 64 g.frames.addrToDC) false g with
            frames := { g.frames with
              addrToDC := dc1AddrStart + cacheLineSize * ((i + 1 : Nat) : Int) } } = i + 1 := by
        rw [nextLine, add_sub_cancel_left, Int.mul_ediv_cancel_left _ (by decide),
          Int.toNat_natCast]
      rw [← before, toCome, if_pos writing, later, displayed, asked, write, List.append_assoc,
        List.singleton_append]
    · simp only [displayed, writing, if_true]
      exact count

theorem Inv.proceed (inv : g.Inv trace) (free : g.ip.reqCount ≤ 0)
    (taken : g.proceed env = some h) : h.Inv trace := by
  unfold Gpu.proceed at taken
  split at taken
  · cases taken
    exact (inv.congr (waitFps_same env g)).congr (countPower_same env _)
  · split at taken
    · cases taken
      exact inv.writeToDC free ‹_›
    · rename_i writing
      have idle : g.frames.writeToDCFlag = false := by simpa using writing
      have counted := inv.congr (countPower_same env g)
      dsimp only at taken
      split at taken
      · unfold Gpu.work at taken
        split at taken
        · cases taken
          exact counted.congr ⟨rfl, rfl, rfl, rfl, rfl, rfl, rfl, rfl, rfl⟩
        · exact counted.readLine free idle taken
      · cases taken
        exact counted

theorem Inv.step (inv : g.Inv trace) {e : GpuEvent} (taken : g.step e = some h) :
    h.Inv trace := by
  cases e with
  | tick env =>
    simp only [Gpu.step, tick] at taken
    split at taken
    · rename_i waits
      obtain ⟨inv, free⟩ := inv.sendMemoryReq env.acceptsWaiting waits
      split at taken
      · exact inv.proceed (free ‹_›) taken
      · cases taken
        exact inv
    · exact inv.proceed (by omega) taken
  | memResponse =>
    cases taken
    exact inv.congr ⟨rfl, rfl, rfl, rfl, rfl, rfl, rfl, rfl, rfl⟩
  | setDvfs dvfs =>
    cases taken
    exact inv.congr ⟨rfl, rfl, rfl, rfl, rfl, rfl, rfl, rfl, rfl⟩

theorem init_inv (raw : Gpu) (dvfs : IpDvfs) (trace : List GpuLine) :
    (init raw dvfs trace).Inv trace where
  taken := rfl
  slot := by simp [init, Ip.init]
  asked := ⟨[], rfl, rfl, rfl⟩
  place writing := by cases writing

theorem Inv.inOrder (inv : g.Inv trace) : g.InOrder trace where
  taken := inv.taken
  oneWaits := by
    unfold waiting
    split <;> simp
  asked := by
    obtain ⟨read, split, asked, -⟩ := inv.asked
    exact ⟨read, split, asked⟩

/--
Whatever the agent takes and refuses, the requests of the GPU are those of the lines it has read, in
their order, each once, and taken but for one at most.
-/
theorem requests_in_order (raw : Gpu) (dvfs : IpDvfs) (trace : List GpuLine)
    {events : List GpuEvent} {g : Gpu}
    (run : Machine.run Gpu.step (init raw dvfs trace) events = some g) : g.InOrder trace := by
  have inv : g.Inv trace := Machine.run_preserves (fun _ _ _ inv taken => inv.step taken)
    (init_inv raw dvfs trace) run
  exact inv.inOrder

/-- The memory of a GPU before it is set up. -/
def blank : Gpu where
  ip := {
    power := ⟨.gpu, false, .idle, 0, 0, ⟨.gpu, 0, 0, 0, 0⟩⟩
    ioLatency := 0, coreId := 0, flowType := 0, flowId := 0, reqCount := 0, respCount := 0
    dataSize := 0, isBusy := false, reqAddr := 0, isRead := false, frameNum := 0
    cyclesToSkip := 0 }
  frames := ⟨0, 0, 0, 0, false, 0⟩
  cyclesToSkip := 0
  framesDisplayed := 0
  trace := []
  asked := []
  taken := []

/-- A tick late in the simulation, in which the agent takes all requests or none. -/
def lateTick (accepts : Bool) : GpuEvent :=
  .tick ⟨200000000, .disabled, accepts, accepts⟩

/-- A load that is refused twice is taken once, before the first line of the next frame. -/
theorem load_taken_once :
    ∃ g, Machine.run Gpu.step (init blank ⟨.gpu, 4, 0, 1, 0⟩ [.gmuLd 64#64, .rendered])
        [lateTick false, lateTick false, lateTick true, lateTick true] = some g ∧
      g.taken = [.memRequest 2420000064#64 true, .memRequest 2400000000#64 false] ∧
      g.InOrder [.gmuLd 64#64, .rendered] := by
  have ran : (Machine.run Gpu.step (init blank ⟨.gpu, 4, 0, 1, 0⟩ [.gmuLd 64#64, .rendered])
      [lateTick false, lateTick false, lateTick true, lateTick true]).map Gpu.taken =
        some [.memRequest 2420000064#64 true, .memRequest 2400000000#64 false] := by
    decide +kernel
  obtain ⟨g, run, taken⟩ := Option.map_eq_some_iff.mp ran
  exact ⟨g, run, taken, requests_in_order _ _ _ run⟩

end Gpu

end GemDroid
