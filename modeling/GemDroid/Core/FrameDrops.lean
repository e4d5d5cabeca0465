import GemDroid.Core.FramePacing

/-! What the frames that a core drops are put down to, over its runs. -/

namespace GemDroid

/-- The stalls of each class that are counted for a frame. -/
structure FrameStalls where
  rob : Int
  mem : Int
  ip : Int
  deriving DecidableEq, Repr

/-- The classes of stalls. -/
inductive StallClass
  | rob | mem | ip
  deriving DecidableEq, Repr

namespace FrameStalls

/-- No stall. -/
def zero : FrameStalls :=
  ⟨0, 0, 0⟩

/-- The stalls counted from an earlier reading of the counters to a later one, added to others. -/
def grow (s before after : FrameStalls) : FrameStalls :=
  ⟨s.rob + (after.rob - before.rob), s.mem + (after.mem - before.mem),
    s.ip + (after.ip - before.ip)⟩

/-- A class has strictly more stalls than both others. -/
def Most (s : FrameStalls) : StallClass → Prop
  | .rob => s.mem < s.rob ∧ s.ip < s.rob
  | .mem => s.rob < s.mem ∧ s.ip < s.mem
  | .ip => s.rob < s.ip ∧ s.mem < s.ip

@[simp] theorem grow_self (s t : FrameStalls) : s.grow s t = t := by
  simp [grow]

end FrameStalls

/-- The counters of dropped frames. -/
structure DropCounters where
  framesDropped : Int
  dueToRobStalls : Int
  dueToMemStalls : Int
  dueToIPStalls : Int
  deriving DecidableEq, Repr

/-- One more frame is dropped and put down to the IPs. -/
def DropCounters.dropForIP (d : DropCounters) : DropCounters :=
  { d with framesDropped := d.framesDropped + 1, dueToIPStalls := d.dueToIPStalls + 1 }

/-- A dropped frame: the stalls since the one before it, and the class it is put down to. -/
structure DroppedFrame where
  stalls : FrameStalls
  cause : StallClass
  deriving DecidableEq, Repr

/-- The frame is put down to the class that has strictly more stalls than the others, if any. -/
def DroppedFrame.Right (f : DroppedFrame) : Prop :=
  ∀ cause, f.stalls.Most cause → f.cause = cause

namespace Core

/-- The stall counters of the frame under way. -/
def frameStalls (c : Core) : FrameStalls :=
  ⟨c.pipe.thisFrameRobFullStalls, c.pipe.thisFrameMemFullStalls, c.thisFrameIPFullStalls⟩

/-- The counters of dropped frames. -/
def drops (c : Core) : DropCounters :=
  ⟨c.framesDropped, c.framesDroppedDueToRobStalls, c.framesDroppedDueToMemStalls,
    c.framesDroppedDueToIPStalls⟩

/-- The core as a tick leaves it to the trace, if the tick reads a line. -/
def readyForLine (cfg : CoreConfig) (env : TickEnv) (c : Core) :
    Except CoreFault (Option Core) := do
  let c ← c.startTick
  if 0 < c.cyclesToWake then return none
  else
    let c := c.lowerPState
    if 0 < c.idleStalls ∨ 0 < c.fpsStalls ∨ 0 < c.audFpsStalls then return none
    else
      let c ← c.issue cfg env
      if c.pipe.rob.numberOfInstrExecutedOoO < robSize ∧
          c.pipe.rob.outstandingTransactionsSize < maxTransactions then
        return some c
      else return none

/-- The next line of the trace is that of a display frame, and it can be read. -/
def atDisplayLine (c : Core) : Bool :=
  c.cpuPstate = .active && c.emTraceFile.head? = some (.ip .fbUp)

/-- A frame of the display comes too late, as far as 32 bits can tell. -/
def FrameLate (cfg : CoreConfig) (env : TickEnv) (c : Core) : Prop :=
  (cfg.typeOfApplication = .displayBound ∨ cfg.typeOfApplication = .videoPlayback) ∧
    c.lastDCTick ≠ 0 ∧ fpsTicks ≤ toInt32 (env.globalTicks - c.lastDCTick)

/-- The class whose counter is higher in the second core. -/
def chargedTo (c d : Core) : StallClass :=
  if c.framesDroppedDueToRobStalls < d.framesDroppedDueToRobStalls then .rob
  else if c.framesDroppedDueToMemStalls < d.framesDroppedDueToMemStalls then .mem
  else .ip

end Core

/--
A core with a record that is no part of the source: the stalls since the last display line, which
is where a frame ends, and the frames that were dropped.
-/
structure FrameWatch where
  core : Core
  stalls : FrameStalls := .zero
  dropped : List DroppedFrame := []

namespace FrameWatch

/-- The core that a display line is read with, if the event reads one. -/
def boundary (cfg : CoreConfig) (w : FrameWatch) : CoreEvent → Option (TickEnv × Core)
  | .tick env =>
    match w.core.readyForLine cfg env with
    | .ok (some c) => if c.atDisplayLine then some (env, c) else none
    | _ => none
  | _ => none

/-- The stalls of the frame that ends with a core, those of the issue in the same tick included. -/
def seen (w : FrameWatch) (c : Core) : FrameStalls :=
  w.stalls.grow w.core.frameStalls c.frameStalls

/-- The record after an event that led to a core. -/
def record (cfg : CoreConfig) (w : FrameWatch) (d : Core) : Option (TickEnv × Core) → FrameWatch
  | none => { w with core := d, stalls := w.seen d }
  | some (env, c) =>
    { core := d
      -- The counters are reset with the frame; what is counted after that belongs to the next one.
      stalls := FrameStalls.zero.grow (c.isFrameDrop cfg env).1.frameStalls d.frameStalls
      dropped :=
        if w.core.framesDropped < d.framesDropped then
          w.dropped ++ [⟨w.seen c, w.core.chargedTo d⟩]
        else w.dropped }

/-- An event of the core. -/
def step (cfg : CoreConfig) (w : FrameWatch) (e : CoreEvent) : Option FrameWatch :=
  (w.core.step cfg e).map fun d => w.record cfg d (w.boundary cfg e)

/-- How many of the dropped frames are put down to a class. -/
def charged (w : FrameWatch) (cause : StallClass) : Int :=
  w.dropped.countP fun f => f.cause = cause

/-- The counters agree with the record, and their sum with the number of dropped frames. -/
structure Counted (w : FrameWatch) : Prop where
  all : w.core.framesDropped = w.dropped.length
  rob : w.core.framesDroppedDueToRobStalls = w.charged .rob
  mem : w.core.framesDroppedDueToMemStalls = w.charged .mem
  ip : w.core.framesDroppedDueToIPStalls = w.charged .ip
  sum : w.core.framesDroppedDueToRobStalls + w.core.framesDroppedDueToMemStalls +
    w.core.framesDroppedDueToIPStalls = w.core.framesDropped

/-- When a frame is late, neither the buffer nor the memory stalled most since the frame before. -/
def Excused (cfg : CoreConfig) (w : FrameWatch) (e : CoreEvent) : Prop :=
  ∀ env c, w.boundary cfg e = some (env, c) → c.FrameLate cfg env →
    ¬(w.seen c).Most .rob ∧ ¬(w.seen c).Most .mem

end FrameWatch

end GemDroid
