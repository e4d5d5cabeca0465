import GemDroid.Core.Trace
import GemDroid.Lib.Run

/-! The clock of a core: power states, stalls, issue and trace reading in the source's order. -/

namespace GemDroid

namespace Core

/-- Go to the active state, at the frequency its governor wakes up to (`setPStateActive`). -/
def setPStateActive (cfg : CoreConfig) (c : Core) : Core :=
  { c with
    dvfs :=
      if cfg.governor = .interactive then c.dvfs.setMaxCoreFreq cfg.governor
      else if cfg.governor = .powercap then c.dvfs.setOptCoreFreq
      else c.dvfs
    cpuPstate := .active
    pipe := { c.pipe with idleCycles := 0 } }

/-- A core after construction; its frequency state keeps what the memory held. -/
def new (held : CoreDvfs) (trace : List Word) : Core :=
  { pipe := Pipeline.empty, dvfs := { held with dvfsCounter := 0 }, ticks := 0, cyclesToWake := 0,
    cpuPstate := .active, needToLookAhead := true, qemuTo60FPSSpeedratio := 0,
    emTraceFile := trace, lookaheadTraceFile := trace, idleStalls := 0, fpsStalls := 0,
    lastDCTick := 0, audFpsStalls := 0, lastSNDTick := 0, readFBLine := false,
    thisFrameIPFullStalls := 0, framesDisplayed := 0, framesDropped := 0,
    framesDroppedDueToRobStalls := 0, framesDroppedDueToMemStalls := 0,
    framesDroppedDueToIPStalls := 0, frameNumber := fun _ => 0, ipCalls := [] }

/--
A core with its trace opened and its frequency (in MHz) set (`init`).

The first look ahead uses the frequency state before it is set.
-/
def init (cfg : CoreConfig) (held : CoreDvfs) (trace : List Word) (coreFreq optDVFSState : Int) :
    Except CoreFault Core :=
  let c := new held trace
  let c := if cfg.typeOfApplication ≠ .coreBound then c.setIdleRatio else c
  let c := c.setPStateActive cfg
  -- A frequency that the table does not list fails an assertion.
  match c.dvfs.setCoreFreq (coreFreq / 1000) with
  | some dvfs => .ok { c with dvfs := { dvfs with optDVFSState } }
  | none => .error .freqNotInTable

/-- Spend a cycle of waking up. -/
def wakeUp (cfg : CoreConfig) (c : Core) : Core :=
  let c := { c with cyclesToWake := c.cyclesToWake - 1 }
  if c.cyclesToWake = 0 then c.setPStateActive cfg else c

/-- Lower the power state of a core that was idle for long. -/
def lowerPState (c : Core) : Core :=
  match c.cpuPstate with
  | .active =>
    if corePstateLowpowerEnterTime ≤ c.pipe.idleCycles then
      { c with cpuPstate := .lowPower, pipe := { c.pipe with idleCycles := 0 } }
    else c
  | .lowPower =>
    -- The platform turns the deepest state off.
    if enableCoreIdle && decide (corePstateIdleEnterTime ≤ c.pipe.idleCycles) then
      { c with cpuPstate := .idle, pipe := { c.pipe with idleCycles := 0 } }
    else c
  | .idle => c

/-- Begin to wake up for the next frame unless the core is active. -/
def startWake (c : Core) : Core :=
  match c.cpuPstate with
  | .active => c
  | .lowPower => { c with cyclesToWake := corePstateLowpowerExitTime }
  | .idle => { c with cyclesToWake := corePstateIdleExitTime }

/-- Count a cycle spent waiting for a frame. -/
def countIdle (c : Core) : Core :=
  { c with pipe := { c.pipe with
      idleCycles := c.pipe.idleCycles + 1, idleStreak := c.pipe.idleStreak + 1 } }

/-- What is left of a stall after one core tick, in platform ticks. -/
def stallLeft (stalls : Int) (c : Core) : Int :=
  -- A core tick takes several platform ticks, and the quotient is cut to an integer.
  Rounding.trunc (stalls - gemdroidFreq / c.dvfs.getCoreFreq)

/-- Wait a cycle for the time to display a frame. -/
def waitFps (env : TickEnv) (c : Core) : Core :=
  let c := { c with fpsStalls := c.stallLeft c.fpsStalls }.countIdle
  if c.fpsStalls ≤ 0 then
    -- The time has come: the frame is shown, and the core wakes up if it must.
    { c with framesDisplayed := c.framesDisplayed + 1, lastDCTick := env.globalTicks }.startWake
  else c

/-- Wait a cycle for the time to play an audio frame. -/
def waitAudFps (env : TickEnv) (c : Core) : Core :=
  let c := { c with audFpsStalls := c.stallLeft c.audFpsStalls }.countIdle
  if c.audFpsStalls ≤ 0 then { c with lastSNDTick := env.globalTicks }.startWake else c

/-- Issue for one tick in the mode of the core. -/
def issue (cfg : CoreConfig) (env : TickEnv) (c : Core) : Except CoreFault Core := do
  let pipe ←
    if cfg.inOrder then c.pipe.inOrderProcess cfg.issueWidth c.ticks env.accepts
    else c.pipe.process cfg.issueWidth c.ticks env.accepts
  return { c with pipe }

/-- Issue, and read a line while the buffer has room for it. -/
def issueAndRead (cfg : CoreConfig) (env : TickEnv) (c : Core) : Except CoreFault Core := do
  let c ← c.issue cfg env
  -- A line adds one entry at most, so one free place is enough.
  if c.pipe.rob.numberOfInstrExecutedOoO < robSize ∧
      c.pipe.rob.outstandingTransactionsSize < maxTransactions then
    c.readLine cfg env
  else return c

/-- Count the tick and look for a blocked head, except at multiples of the period. -/
def startTick (c : Core) : Except CoreFault Core := do
  let c := { c with ticks := c.ticks + 1 }
  if c.ticks % deadlockPeriod ≠ 0 then do
    let rob ← c.pipe.rob.checkDeadlock c.ticks
    return { c with pipe := { c.pipe with rob } }
  else return c

/-- What a tick does once the blocked head is dealt with. -/
def endTick (cfg : CoreConfig) (env : TickEnv) (c : Core) : Except CoreFault Core :=
  -- Of waking, stalls and work a tick does one.
  if 0 < c.cyclesToWake then .ok (c.wakeUp cfg)
  else
    let c := c.lowerPState
    if 0 < c.idleStalls then .ok { c with idleStalls := c.idleStalls - 1 }
    else if 0 < c.fpsStalls then .ok (c.waitFps env)
    else if 0 < c.audFpsStalls then .ok (c.waitAudFps env)
    else c.issueAndRead cfg env

/-- One tick of the core clock (`tick`). -/
def tick (cfg : CoreConfig) (env : TickEnv) (c : Core) : Except CoreFault Core := do
  let c ← c.startTick
  c.endTick cfg env

/-- The core takes the response to one of its requests. -/
def memCoreResponse (request : CoreRequest) (c : Core) : Core :=
  { c with pipe := { c.pipe with rob := (c.pipe.rob.memCoreResponse request).1 } }

end Core

/-- What can happen to a core. -/
inductive CoreEvent
  /-- The core clock ticks. -/
  | tick (env : TickEnv)
  /-- The memory answers a request that is in flight. -/
  | memCoreResponse (request : CoreRequest)
  /-- A governor changes the frequency state. -/
  | setDvfs (dvfs : CoreDvfs)

namespace Core

/-- The effect of an event: none when the tick faults or nothing is in flight to be answered. -/
def step (cfg : CoreConfig) (c : Core) : CoreEvent → Option Core
  | .tick env => (c.tick cfg env).toOption
  | .memCoreResponse request =>
    -- The memory answers only what it was sent.
    if request ∈ c.pipe.rob.inFlight then some (c.memCoreResponse request) else none
  | .setDvfs dvfs => some { c with dvfs }

/-- The configuration of a core-bound application without flows. -/
def coreBound (issueWidth : Nat) (inOrder : Bool) : CoreConfig :=
  { coreId := 0, issueWidth, inOrder, typeOfApplication := .coreBound, governor := .disabled,
    flows := fun _ _ => -1 }

/-- A platform at rest, which takes every request. -/
def accepting : TickEnv :=
  { globalTicks := 0, accepts := fun _ => true, limitReached := fun _ => false }

/-- A core-bound core at 1 GHz before its first tick. -/
def started (trace : List Word) : Core :=
  new { dvfsState := 7, dvfsCounter := 0, optDVFSState := 7, powerInLastEpoch := 0 } trace

theorem init_started (issueWidth : Nat) (inOrder : Bool) (trace : List Word) :
    init (coreBound issueWidth inOrder) ⟨0, 0, 0, 0⟩ trace 1000 7 = .ok (started trace) := by
  -- The frequency of 1 GHz is the eighth row of the table.
  have index : getIndexInTable coreVoltageFreq 1 = some 7 := by decide +kernel
  simp [init, new, setPStateActive, coreBound, CoreDvfs.setCoreFreq, index, started,
    Pipeline.empty]

theorem step_tick {cfg : CoreConfig} {c d : Core} {env : TickEnv}
    (taken : step cfg c (.tick env) = some d) : c.tick cfg env = .ok d := by
  -- A fault would have left no state.
  simp only [step] at taken
  cases ended : c.tick cfg env with
  | error fault => simp [ended, Except.toOption] at taken
  | ok after => simpa [ended, Except.toOption] using taken

theorem step_memCoreResponse {cfg : CoreConfig} {c d : Core} {request : CoreRequest}
    (taken : step cfg c (.memCoreResponse request) = some d) :
    request ∈ c.pipe.rob.inFlight ∧ d = c.memCoreResponse request := by
  simp only [step, Option.ite_none_right_eq_some, Option.some.injEq] at taken
  exact ⟨taken.1, taken.2.symm⟩

theorem step_setDvfs {cfg : CoreConfig} {c d : Core} {dvfs : CoreDvfs}
    (taken : step cfg c (.setDvfs dvfs) = some d) : d = { c with dvfs } :=
  (Option.some.inj taken).symm

theorem init_fresh {cfg : CoreConfig} {held : CoreDvfs} {trace : List Word}
    {coreFreq optDVFSState : Int} {c : Core}
    (built : init cfg held trace coreFreq optDVFSState = .ok c) :
    c.pipe = Pipeline.empty ∧ c.cpuPstate = .active := by
  simp only [init] at built
  split at built
  · -- Neither the look ahead nor the wake-up adds anything to a new pipeline.
    rw [← Except.ok.inj built]
    refine ⟨?_, rfl⟩
    simp only [setPStateActive]
    split <;> rfl
  · cases built

end Core

end GemDroid
