import GemDroid.Dvfs.DynamicProg
import GemDroid.Lib.Walk

/-! The governor that lowers memory and component frequencies by turns, whichever saves more. -/

namespace GemDroid

/-- What the governor reads beside the measurements: the swept factors and who is active. -/
structure CoScaleEnv where
  sweepVal1 : Rat
  sweepVal2 : Rat
  coreActive : Bool
  ipActive : IpType → Bool

/-- A memory frequency and the index of a component. -/
structure CoScaleFreqs where
  mem : Rat
  index : Int
  deriving DecidableEq, Repr

/-- What a search estimates for its component. -/
structure CoScaleEstimates where
  minTime : Rat
  /-- The lowest index that the search goes down to. -/
  lowest : Int
  lastMemoryEnergy : Rat
  lastEnergy : Rat
  memoryEnergy : Rat → Rat
  memoryTime : Rat → Rat
  /-- Time and energy at an index, for the time that the memory frequency gives. -/
  time : Rat → Int → Rat
  energy : Rat → Int → Rat

/-- What a round of a search compares. -/
structure CoScaleRound where
  freqs : CoScaleFreqs
  memoryTime : Rat
  memoryEnergy : Rat
  time : Rat
  energy : Rat
  /-- Neither of the frequencies could be lowered. -/
  bottom : Bool
  deriving Repr

/-- What a round of a search decides. -/
inductive CoScaleChoice
  | memory
  | index
  | leave
  deriving DecidableEq, Repr

namespace CoScaleEstimates

/-- Lower what can be lowered, and estimate times and energies there. -/
def round (c : CoScaleEstimates) (pos : CoScaleFreqs) : CoScaleRound :=
  -- A memory off the grid of tenths passes the lowest frequency and can be lowered for ever.
  let lowerMem := decide (epsilon < |pos.mem - minMemFreq|)
  let mem := if lowerMem then pos.mem - 1 / 10 else pos.mem
  let memoryTime := if lowerMem then c.memoryTime mem else c.minTime
  let lowerIndex := decide (c.lowest < pos.index)
  let index := if lowerIndex then pos.index - 1 else pos.index
  { freqs := ⟨mem, index⟩
    memoryTime
    memoryEnergy := if lowerMem then c.memoryEnergy mem else c.lastMemoryEnergy
    time := if lowerIndex then c.time memoryTime index else c.minTime
    energy := if lowerIndex then c.energy memoryTime index else c.lastEnergy
    bottom := !lowerIndex && decide (|mem - minMemFreq| < epsilon) }

/-- The frequencies that a round goes down to. -/
def next (c : CoScaleEstimates) (pos : CoScaleFreqs) : CoScaleFreqs :=
  (c.round pos).freqs

/-- Take what saves more energy, or the other one when that takes too long. -/
def choose (bound : Rat) (c : CoScaleEstimates) (pos : CoScaleFreqs) : CoScaleChoice :=
  let r := c.round pos
  if r.bottom then .leave
  else if c.lastEnergy - r.energy < c.lastMemoryEnergy - r.memoryEnergy then
    if r.memoryTime < bound then .memory else if r.time < bound then .index else .leave
  else if r.time < bound then .index
  else if r.memoryTime < bound then .memory
  else .leave

/-- What a round changes in the frequencies to be set, nothing when it breaks out of the loop. -/
def change (bound : Rat) (c : CoScaleEstimates) (pos : CoScaleFreqs) :
    Option (CoScaleFreqs → CoScaleFreqs) :=
  match c.choose bound pos with
  | .memory => some fun found => { found with mem := (c.next pos).mem }
  | .index => some fun found => { found with index := (c.next pos).index }
  | .leave => none

end CoScaleEstimates

/-- A step up from a memory frequency. -/
def raisedMem (memFreq : Rat) : Rat :=
  if memFreq < maxMemFreq then memFreq + 1 / 10 else memFreq

namespace DvfsPlatform

/-- The energy of the memory for a frame. -/
def lastMemoryEnergy (p : DvfsPlatform) : Rat :=
  (fpsDeadline + fpsDeadlineSafetynet) * p.memPowerIn1ms

/-- The time of the core with all frequencies at their highest (`cpu_min_time`). -/
def cpuMinTime (p : DvfsPlatform) : Rat :=
  CoreDvfs.getTimeEst (p.memScaledTimeCPU p.memFreq maxMemFreq) p.core.getCoreFreq
    (CoreDvfs.getCoreFreqAt (coreDvfsStates - 1))

/-- The time of an accelerator with all frequencies at their highest (`ip_min_time`). -/
def ipMinTime (ip : IpType) (p : DvfsPlatform) : Rat :=
  IpDvfs.getTimeEst (p.memScaledTime ip (getMaxBandwidth maxMemFreq) (p.ip ip).dvfsState)
    (p.ip ip).getIPFreq (IpDvfs.getIPFreqAt (ipDvfsStates - 1))

/-- The time of a device with the memory at its highest frequency. -/
def devMinTime (ip : IpType) (p : DvfsPlatform) : Rat :=
  p.memScaledTime ip (getMaxBandwidth maxMemFreq) (p.ip ip).dvfsState

/-- What the search estimates for the core. -/
def cpuEstimates (p : DvfsPlatform) : CoScaleEstimates where
  minTime := p.cpuMinTime
  lowest := p.core.optDVFSState
  lastMemoryEnergy := p.lastMemoryEnergy
  lastEnergy := p.lastEnergyTook .cpu
  memoryEnergy := memEnergyEst p.memFreq p.lastMemoryEnergy
  memoryTime := p.cpuBaseTime
  time memoryTime cpu :=
    CoreDvfs.getTimeEst memoryTime (p.lastFrequency .cpu) (CoreDvfs.getCoreFreqAt cpu)
  energy memoryTime cpu :=
    p.core.getEnergyEst memoryTime (p.lastPowerTook .cpu) (CoreDvfs.getCoreFreqAt cpu)

/-- What the search estimates for an accelerator. -/
def ipEstimates (ip : IpType) (p : DvfsPlatform) : CoScaleEstimates where
  minTime := p.ipMinTime ip
  lowest := (p.ip ip).optDVFSState
  lastMemoryEnergy := p.lastMemoryEnergy
  lastEnergy := p.lastEnergyTook ip
  memoryEnergy := memEnergyEst p.memFreq p.lastMemoryEnergy
  memoryTime := p.ipBaseTime ip
  time memoryTime index :=
    IpDvfs.getTimeEst memoryTime (p.lastFrequency ip) (IpDvfs.getIPFreqAt index)
  energy memoryTime index :=
    (p.ip ip).getEnergyEst memoryTime (p.lastPowerTook ip) (IpDvfs.getIPFreqAt index)

end DvfsPlatform

/-- What a round of the search for a device changes in the memory frequency to be set. -/
def deviceChange (bound : Rat) (memoryTime : Rat → Rat) (mem : Rat) : Option (Rat → Rat) :=
  if epsilon < |mem - minMemFreq| then
    if memoryTime (mem - 1 / 10) < bound then some fun _ => mem - 1 / 10 else none
  else none

/-- The memory frequency that a round of the search for a device goes down to. -/
def deviceNext (mem : Rat) : Rat :=
  if epsilon < |mem - minMemFreq| then mem - 1 / 10 else mem

/-- The variables that the turns of the components share. -/
structure CoScale where
  p : DvfsPlatform
  /-- The memory frequency to be set and the one that the searches have got down to. -/
  memFreq : Rat
  mem : Rat
  /-- The index of the core to be set and the one that its search has got down to. -/
  cpuFreq : Int
  cpu : Int
  maxMemFreqSoFar : Rat

namespace CoScale

/-- The variables before the first turn. -/
def start (p : DvfsPlatform) : CoScale where
  p
  memFreq := p.memFreq
  mem := p.memFreq
  cpuFreq := p.core.dvfsState
  cpu := p.core.dvfsState
  maxMemFreqSoFar := 0

/-- The last time of a component is too long for lower frequencies. -/
def late (env : CoScaleEnv) (p : DvfsPlatform) (ip : IpType) (minTime : Rat) : Bool :=
  decide (env.sweepVal2 * minTime < p.lastTimeTook ip)

/-- Where the core's turn ends, with the frequencies searched and those to be set. -/
def cpuSearch (fuel : Nat) (env : CoScaleEnv) (s : CoScale) :
    Option (CoScaleFreqs × CoScaleFreqs) :=
  let c := s.p.cpuEstimates
  if late env s.p .cpu c.minTime then
    some (⟨s.mem, s.cpu⟩,
      ⟨raisedMem s.memFreq, if s.cpuFreq < coreDvfsStates - 1 then s.cpuFreq + 1 else s.cpuFreq⟩)
  else
    Walk.walk c.next (c.change (c.minTime * env.sweepVal1)) fuel ⟨s.mem, s.cpu⟩
      ⟨s.memFreq, s.cpuFreq⟩

/-- Where the turn of an accelerator ends, with the frequencies searched and those to be set. -/
def ipSearch (fuel : Nat) (env : CoScaleEnv) (ip : IpType) (s : CoScale) :
    Option (CoScaleFreqs × CoScaleFreqs) :=
  let c := s.p.ipEstimates ip
  -- The index to be set starts from zero and not from that of the accelerator.
  let ipFreqInd := 0
  if late env s.p ip c.minTime then
    some (⟨s.mem, (s.p.ip ip).dvfsState⟩,
      ⟨raisedMem s.memFreq, if ipFreqInd < ipDvfsStates - 1 then ipFreqInd + 1 else ipFreqInd⟩)
  else
    Walk.walk c.next (c.change (c.minTime * env.sweepVal1)) fuel ⟨s.mem, (s.p.ip ip).dvfsState⟩
      ⟨s.memFreq, ipFreqInd⟩

/-- Where the turn of a device ends, with the memory frequencies searched and to be set. -/
def devSearch (fuel : Nat) (env : CoScaleEnv) (ip : IpType) (s : CoScale) : Option (Rat × Rat) :=
  let minTime := s.p.devMinTime ip
  if late env s.p ip minTime then some (s.mem, raisedMem s.memFreq)
  else
    Walk.walk deviceNext (deviceChange (minTime * env.sweepVal1) fun mem =>
      s.p.memScaledTime ip (getMaxBandwidth mem) (s.p.ip ip).dvfsState) fuel s.mem s.memFreq

/-- The memory frequencies after a turn. -/
def setMem (mem memFreq : Rat) (s : CoScale) : CoScale :=
  { s with
    mem
    memFreq
    maxMemFreqSoFar := if s.maxMemFreqSoFar < memFreq then memFreq else s.maxMemFreqSoFar }

/-- The turn of the core. -/
def cpuTurn (fuel : Nat) (env : CoScaleEnv) (s : CoScale) : Except DvfsFault CoScale :=
  match s.cpuSearch fuel env with
  | none => .error .outOfFuel
  | some (searched, found) => do
    let p ← s.p.setCoreFreqInd found.index
    return { s.setMem searched.mem found.mem with p, cpu := searched.index, cpuFreq := found.index }

/-- The turn of an accelerator. -/
def ipTurn (fuel : Nat) (env : CoScaleEnv) (ip : IpType) (s : CoScale) :
    Except DvfsFault CoScale :=
  match s.ipSearch fuel env ip with
  | none => .error .outOfFuel
  | some (searched, found) => do
    let p ← s.p.setIPFreqInd ip found.index
    return { s.setMem searched.mem found.mem with p }

/-- The turn of a device. -/
def devTurn (fuel : Nat) (env : CoScaleEnv) (ip : IpType) (s : CoScale) :
    Except DvfsFault CoScale :=
  match s.devSearch fuel env ip with
  | none => .error .outOfFuel
  | some (mem, memFreq) => .ok (s.setMem mem memFreq)

/-- The turn of a component of the flow. -/
def turn (fuel : Nat) (env : CoScaleEnv) (s : CoScale) (ip : IpType) : Except DvfsFault CoScale :=
  if ip = .cpu ∧ 0 < s.p.lastTimeTook ip then
    if env.coreActive then s.cpuTurn fuel env else .ok s
  else if IpType.vd.code ≤ ip.code ∧ 0 < s.p.lastTimeTook ip then
    if !ip.hasInstance then .error .unknownIP
    else if env.ipActive ip then s.ipTurn fuel env ip else .ok s
  else if ip.code < IpType.vd.code ∧ 0 < s.p.lastTimeTook ip then
    if env.ipActive ip then s.devTurn fuel env ip else .ok s
  else .ok s

end CoScale

/-- Set the frequencies of memory, core and accelerators together (`dvfsCoScaleNewNew`). -/
def DvfsPlatform.dvfsCoScaleNewNew (fuel : Nat) (env : CoScaleEnv) (p : DvfsPlatform) :
    Except DvfsFault DvfsPlatform := do
  let s ← p.flow.ips.foldlM (fun s ip => s.turn fuel env ip) (CoScale.start p)
  if s.maxMemFreqSoFar = 0 then return s.p
  else s.p.setMemFreq s.maxMemFreqSoFar

end GemDroid
