import GemDroid.Core.State
import GemDroid.Dvfs.States
import GemDroid.Lib.Divider

/-! The power of a core in the last microsecond, and the cycles that are counted for it. -/

namespace GemDroid

/-- Platform ticks in a microsecond (`MICROSEC`). -/
def microsec : Int := 1000 * 10

/-- The platform ticks from one tick of a core to the next (`cpuFreqMultipliers`), an `int`. -/
def cpuFreqMultiplier (coreFreq : Rat) : Int :=
  Rounding.trunc (gemdroidFreq / coreFreq)

/-- The cycles that a core is said to have in a microsecond (`one_microsec`), a `long`. -/
def oneMicrosec (coreFreq : Rat) : Int :=
  Rounding.trunc (coreFreq * 1000)

/-- What a core has counted since the last sample of its power (`m_thisMicroSec..`). -/
structure MicroSec where
  activePStateCycles : Int
  lowpowerPStateCycles : Int
  idlePStateCycles : Int
  instructionsCommitted : Int
  robFullStalls : Int
  deriving DecidableEq, Repr

/-- What a core does in one of its ticks, as far as its power depends on it. -/
structure CoreActivity where
  pstate : CpuPstate
  instructionsCommitted : Int
  robFullStalls : Int
  deriving DecidableEq, Repr

namespace MicroSec

/-- Nothing has been counted. -/
def zero : MicroSec :=
  { activePStateCycles := 0, lowpowerPStateCycles := 0, idlePStateCycles := 0
    instructionsCommitted := 0, robFullStalls := 0 }

/-- Count one tick of the core (in `GemDroidCore::tick`). -/
def count (a : CoreActivity) (m : MicroSec) : MicroSec :=
  let m := { m with
    instructionsCommitted := m.instructionsCommitted + a.instructionsCommitted
    robFullStalls := m.robFullStalls + a.robFullStalls }
  match a.pstate with
  | .active => { m with activePStateCycles := m.activePStateCycles + 1 }
  | .lowPower => { m with lowpowerPStateCycles := m.lowpowerPStateCycles + 1 }
  | .idle => { m with idlePStateCycles := m.idlePStateCycles + 1 }

/-- The cycles of the three power states together. -/
def cycles (m : MicroSec) : Int :=
  m.activePStateCycles + m.lowpowerPStateCycles + m.idlePStateCycles

/-- The fractions of the microsecond in the three power states (in `powerIn1us`). -/
def portions (coreFreq : Rat) (m : MicroSec) : Rat × Rat × Rat :=
  (m.activePStateCycles / oneMicrosec coreFreq, m.lowpowerPStateCycles / oneMicrosec coreFreq,
    m.idlePStateCycles / oneMicrosec coreFreq)

/-- The static power (`getStaticPower`), for which the idle state counts nothing. -/
def getStaticPower (activePortion lowPortion _idlePortion : Rat) : Rat :=
  coreStaticPwr * activePortion + coreStaticPwr / 3 * lowPortion

/-- The dynamic power in a state of the table (`getDynamicPower`). -/
def getDynamicPower (row : Rat × Rat) (coreActivity coreStallActivity : Rat) : Rat :=
  min coreActivity 1 * dynamicPower coreCapacitance row +
    coreStallActivity * dynamicPower coreCapacitance row / 3

/-- The power of the last microsecond (`powerIn1us`); the share of the stalls is an integer. -/
def powerIn1us (issue_width : Int) (row : Rat × Rat) (m : MicroSec) : Rat :=
  let one_microsec := oneMicrosec row.2
  let (active, low, idle) := m.portions row.2
  getStaticPower active low idle +
    getDynamicPower row (m.instructionsCommitted / (issue_width * one_microsec))
      (m.robFullStalls.tdiv (issue_width * one_microsec) : Int)

end MicroSec

/-- The clocks of the platform that tick a core and sample its power. -/
structure PowerClock where
  ticks : Int
  powerCalcLastTick : Int
  cpuLastTick : Int
  thisMicroSec : MicroSec
  deriving DecidableEq, Repr

namespace PowerClock

/-- Sample the power when a microsecond has passed; the counters start anew (in `tick`). -/
def sample (s : PowerClock) : PowerClock × List MicroSec :=
  if microsec ≤ s.ticks - s.powerCalcLastTick then
    ({ s with powerCalcLastTick := s.ticks, thisMicroSec := .zero }, [s.thisMicroSec])
  else (s, [])

/-- Tick the core when its divided clock does (in `tick`). -/
def tickCore (coreFreq : Rat) (a : CoreActivity) (s : PowerClock) : PowerClock :=
  if cpuFreqMultiplier coreFreq ≤ s.ticks - s.cpuLastTick then
    { s with cpuLastTick := s.ticks, thisMicroSec := s.thisMicroSec.count a }
  else s

/-- A tick of the platform, with what the core would do in it (`GemDroid::tick`). -/
def tick (coreFreq : Rat) (a : CoreActivity) (s : PowerClock) : PowerClock × List MicroSec :=
  let (s, samples) := { s with ticks := s.ticks + 1 }.sample
  (s.tickCore coreFreq a, samples)

/-- The samples of the power in a run of ticks. -/
def samples (coreFreq : Rat) : List CoreActivity → PowerClock → List MicroSec
  | [], _ => []
  | a :: run, s => (s.tick coreFreq a).2 ++ samples coreFreq run (s.tick coreFreq a).1

end PowerClock

end GemDroid
