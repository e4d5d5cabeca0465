import Mathlib.Data.List.Flatten
import GemDroid.Dvfs.LoadBased
import GemDroid.Dvfs.TimeModel
import GemDroid.Lib.Search

/-! The governor that searches the frequencies of memory,
  core and accelerator for the least energy. -/

namespace GemDroid

/-- The memory frequencies from the highest down to some tenths of a GHz. -/
def memFreqsDown (tenths : Int) : List Rat :=
  (Search.down 10 tenths).map fun (t : Int) => (t : Rat) / 10

/-- The components that have an instance (`getIPInstance`). -/
def IpType.hasInstance (ip : IpType) : Bool :=
  ip ≠ .cpu && ip ≠ .dma && ip ≠ .cache

/-- The energy that the search starts from. -/
def startEnergy : Rat := 9999

namespace DvfsPlatform

/-- The energy of the memory for a frame at a frequency. -/
def memoryEnergy (mem : Rat) (p : DvfsPlatform) : Rat :=
  memEnergyEst p.memFreq ((fpsDeadline + fpsDeadlineSafetynet) * p.memPowerIn1ms) mem

/-- The time that the devices of a flow take at a memory frequency. -/
def devTime (ipDevs : List IpType) (mem : Rat) (p : DvfsPlatform) : Rat :=
  ipDevs.foldl (fun time dev =>
    time + p.memScaledTime dev (getMaxBandwidth mem) (p.ip .dc).dvfsState) 0

/-- The energy that the devices of a flow took for the last frame. -/
def devEnergy (ipDevs : List IpType) (p : DvfsPlatform) : Rat :=
  ipDevs.foldl (fun energy dev => energy + p.lastEnergyTook dev) 0

/-- The time of the core at a memory frequency. -/
def cpuBaseTime (mem : Rat) (p : DvfsPlatform) : Rat :=
  p.memScaledTimeCPU p.memFreq mem

/-- The time of the core at a memory frequency and a state. -/
def cpuTime (mem : Rat) (cpu : Int) (p : DvfsPlatform) : Rat :=
  CoreDvfs.getTimeEst (p.cpuBaseTime mem) (p.lastFrequency .cpu) (CoreDvfs.getCoreFreqAt cpu)

/-- The energy of the core at a memory frequency and a state. -/
def cpuEnergy (mem : Rat) (cpu : Int) (p : DvfsPlatform) : Rat :=
  p.core.getEnergyEst (p.cpuBaseTime mem) (p.lastPowerTook .cpu) (CoreDvfs.getCoreFreqAt cpu)

/-- The time of an accelerator at a memory frequency, longer below that of the last frame. -/
def ipBaseTime (ipType : IpType) (mem : Rat) (p : DvfsPlatform) : Rat :=
  let base := p.memScaledTime ipType (getMaxBandwidth mem) (p.ip ipType).dvfsState
  if mem < p.lastMemFreq then base + base * (1 / 10) * (p.lastMemFreq - mem) else base

/-- The time of an accelerator at a memory frequency and a state. -/
def ipTime (ipType : IpType) (mem : Rat) (ip : Int) (p : DvfsPlatform) : Rat :=
  IpDvfs.getTimeEst (p.ipBaseTime ipType mem) (p.lastFrequency ipType) (IpDvfs.getIPFreqAt ip)

/-- The energy of an accelerator at a memory frequency and a state. -/
def ipEnergy (ipType : IpType) (mem : Rat) (ip : Int) (p : DvfsPlatform) : Rat :=
  (p.ip ipType).getEnergyEst (p.ipBaseTime ipType mem) (p.lastPowerTook ipType)
    (IpDvfs.getIPFreqAt ip)

/-- The time of a flow with an accelerator at a pair of memory frequency and state. -/
def pairTime (ipType : IpType) (ipDevs : List IpType) (pair : Rat × Int) (p : DvfsPlatform) : Rat :=
  p.devTime ipDevs pair.1 + p.ipTime ipType pair.1 pair.2

/-- The energy of a flow with an accelerator at a pair of memory frequency and state. -/
def pairEnergy (ipType : IpType) (ipDevs : List IpType) (pair : Rat × Int)
    (p : DvfsPlatform) : Rat :=
  p.memoryEnergy pair.1 + p.devEnergy ipDevs + p.ipEnergy ipType pair.1 pair.2

/-- The lowest index that the search tries for an accelerator, which may be negative. -/
def lowestIp (ipType : IpType) (p : DvfsPlatform) : Int :=
  (p.ip ipType).dvfsState - 2

/-- The least energy of a flow with an accelerator in time, and the pair it is found at. -/
def leastPair (ipType : IpType) (ipDevs : List IpType) (p : DvfsPlatform) : Rat × Rat × Int :=
  Search.forBreak (fun mem => !decide ((fpsDeadline : Rat) < p.devTime ipDevs mem))
    (fun best mem =>
      Search.forBreak
        (fun ip => !decide ((fpsDeadline : Rat) < p.pairTime ipType ipDevs (mem, ip)))
        -- A pair with the energy of the best one replaces it.
        (fun best ip => Search.keep (fun energy least => decide (energy ≤ least))
          (fun pair => p.pairEnergy ipType ipDevs pair) best (mem, ip))
        best (Search.down (ipDvfsStates - 1) (p.lowestIp ipType)))
    -- The frequencies that are searched end three tenths above the lowest one.
    (startEnergy, maxMemFreq, ipDvfsStates - 1) (memFreqsDown 6)

/-- The applications whose frequencies are fixed (`APP_ID_ANGRYBIRDS` and `APP_ID_MPGAME`). -/
def isFixedApp (appId : Nat) : Bool :=
  appId = 8 || appId = 11

/-- Search the frequencies for a flow with one accelerator (`dvfsDynamicProg1`). -/
def dvfsDynamicProg1 (ipAccs ipDevs : List IpType) (p : DvfsPlatform) :
    Except DvfsFault DvfsPlatform :=
  let ipType := ipAccs.headD .cpu
  if !ipType.hasInstance then .error .unknownIP
  else if p.lastTimeTook ipType = 0 then .ok p
  else do
    let (_, memFreq, ipFreq) := p.leastPair ipType ipDevs
    -- The index is an integer, so that three tenths are cut to zero.
    let (memFreq, ipFreq) := if isFixedApp p.appId then (5 / 10, 0) else (memFreq, ipFreq)
    let p ← p.setMemFreq memFreq
    p.setIPFreqInd ipType ipFreq

/-- Memory frequency, state of the core and state of the accelerator. -/
structure Triple where
  mem : Rat
  cpu : Int
  ip : Int
  deriving DecidableEq, Repr

/-- The time of a flow with the core and an accelerator at a triple. -/
def tripleTime (ipType : IpType) (ipDevs : List IpType) (t : Triple) (p : DvfsPlatform) : Rat :=
  p.devTime ipDevs t.mem + p.cpuTime t.mem t.cpu + p.ipTime ipType t.mem t.ip

/-- The energy of a flow with the core and an accelerator at a triple. -/
def tripleEnergy (ipType : IpType) (ipDevs : List IpType) (t : Triple) (p : DvfsPlatform) : Rat :=
  p.memoryEnergy t.mem + p.devEnergy ipDevs + p.cpuEnergy t.mem t.cpu +
    p.ipEnergy ipType t.mem t.ip

/-- The lowest index that the search tries for the core, which may be negative. -/
def lowestCpu (p : DvfsPlatform) : Int :=
  p.core.dvfsState - 2

/-- The triple that the search starts from. -/
def startTriple : Triple :=
  ⟨maxMemFreq, coreDvfsStates - 1, ipDvfsStates - 1⟩

/-- The least energy of a flow with the core and an accelerator in time, and its triple. -/
def leastTriple (ipType : IpType) (ipDevs : List IpType) (p : DvfsPlatform) : Rat × Triple :=
  Search.forBreak (fun mem => !decide ((fpsDeadline : Rat) < p.devTime ipDevs mem))
    (fun best mem =>
      Search.forBreak
        (fun cpu => !decide ((fpsDeadline : Rat) < p.cpuTime mem cpu + p.devTime ipDevs mem))
        (fun best cpu =>
          Search.forBreak
            (fun ip => !decide ((fpsDeadline : Rat) < p.tripleTime ipType ipDevs ⟨mem, cpu, ip⟩))
            -- A triple with the energy of the best one does not replace it.
            (fun best ip => Search.keep (fun energy least => decide (energy < least))
              (fun t => p.tripleEnergy ipType ipDevs t) best ⟨mem, cpu, ip⟩)
            best (Search.down (ipDvfsStates - 1) (p.lowestIp ipType)))
        best (Search.down (coreDvfsStates - 1) p.lowestCpu))
    (startEnergy, startTriple) (memFreqsDown 3)

/-- Search the frequencies for a flow with the core and an accelerator (`dvfsDynamicProg2`). -/
def dvfsDynamicProg2 (ipAccs ipDevs : List IpType) (p : DvfsPlatform) :
    Except DvfsFault DvfsPlatform :=
  -- The accelerator is taken to come second.
  let ipType := ipAccs.getD 1 .cpu
  if !ipType.hasInstance then .error .unknownIP
  else if p.lastTimeTook ipType = 0 ∨ p.lastTimeTook .cpu = 0 then .ok p
  else do
    let (_, t) := p.leastTriple ipType ipDevs
    let p ← p.setMemFreq t.mem
    let p ← p.setCoreFreqInd t.cpu
    p.setIPFreqInd ipType t.ip

end DvfsPlatform

end GemDroid
