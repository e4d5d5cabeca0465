import Mathlib.Data.List.GetD
import GemDroid.Dvfs.States

/-! The times and energies the governors predict from what was measured in the last frame. -/

namespace GemDroid

/-- What is kept back of the time of a frame, in milliseconds (`FPS_DEADLINE_SAFETYNET`). -/
def fpsDeadlineSafetynet : Int := 1

/-- The time a frame may take, a quotient of integers (`FPS_DEADLINE`). -/
def fpsDeadline : Int := 1000 / 60 - fpsDeadlineSafetynet

/-- The highest memory frequency in GHz (`MAX_MEM_FREQ`). -/
def maxMemFreq : Rat := 1

/-- The lowest memory frequency in GHz (`MIN_MEM_FREQ`). -/
def minMemFreq : Rat := 3 / 10

/-- The tolerance of comparisons (`EPSILON`). -/
def epsilon : Rat := 5 / 1000000

/-- Audio frames for each video frame (`AD_AE_RATIO_TO_VD`). -/
def adAeRatioToVd : Rat := 12

/-- The assertions of the governors that can end a run. -/
inductive DvfsFault
  /-- `setMemFreq` is given a frequency outside its range. -/
  | memFreqOutOfRange
  /-- `setCoreFreqInd` is given an index outside the table. -/
  | coreIndexOutOfRange
  /-- `setIPFreqInd` is given an index outside the table. -/
  | ipIndexOutOfRange
  /-- `getIPInstance` is asked for a component that is no IP. -/
  | unknownIP
  /-- The bound on the rounds of a loop is too small. -/
  | outOfFuel
  deriving DecidableEq, Repr

namespace IpType

/-- The component is a device, whose frequency is not scaled (`isDevice`). -/
def isDevice (ip : IpType) : Bool :=
  ip ≠ .cpu && decide (ip.code < IpType.vd.code)

/-- Cycles an IP takes for its unit of work (`getIPProcessingLatency`). -/
def processingLatency : IpType → Int
  | .vd => 12
  | .ve => 18
  | .ae => 8
  | .ad => 12
  | .img => 16
  | .cam => 1
  | .mmcOut | .mmcIn => 10
  | .cpu | .dc | .nw | .snd | .mic | .gpu | .dma | .cache => 1

/-- Cache lines an IP moves for its unit of work (`getIPProcessingSize`). -/
def processingSize : IpType → Int
  | .vd | .ve => vidCodingRatio + 1
  | .ae | .ad => audCodingRatio + 1
  | .cpu | .dc | .nw | .snd | .mic | .cam | .mmcIn | .mmcOut | .img | .gpu | .dma | .cache => 1

/-- Static power of an IP in watts (`*_STATIC_PWR`), zero for components that are none. -/
def staticPower : IpType → Rat
  | .dc | .cam | .vd | .ve | .img => 1 / 10
  | .snd | .mic | .nw | .mmcIn | .mmcOut | .ad | .ae => 5 / 100
  | .gpu => 35 / 100
  | .cpu | .dma | .cache => 0

end IpType

/-- The dynamic power stored in a row of a table. -/
def tableDynamicPower (capacitance : Rat) (table : List (Rat × Rat)) (index : Int) : Rat :=
  if 0 ≤ index then dynamicPower capacitance (table.getD index.toNat (0, 0)) else 0

/-- An index moved into a table of some states. -/
def clampIndex (states index : Int) : Int :=
  if states ≤ index then states - 1 else if index < 0 then 0 else index

theorem clampIndex_inRange {states : Int} (some_state : 0 < states) (index : Int) :
    0 ≤ clampIndex states index ∧ clampIndex states index < states := by
  unfold clampIndex
  split
  · omega
  · split <;> omega

theorem clampIndex_eq_self {states index : Int} (low : 0 ≤ index) (high : index < states) :
    clampIndex states index = index := by
  rw [clampIndex, if_neg (by omega), if_neg (by omega)]

theorem clampIndex_mono {states i j : Int} (some_state : 0 < states) (le : i ≤ j) :
    clampIndex states i ≤ clampIndex states j := by
  unfold clampIndex
  split <;> split <;> (try split) <;> (try split) <;> omega

theorem tableFreq_mono {table : List (Rat × Rat)} (rising : (freqs table).Pairwise (· ≤ ·))
    {i j : Int} (low : 0 ≤ i) (le : i ≤ j) (high : j < table.length) :
    tableFreq table i ≤ tableFreq table j := by
  have length : (freqs table).length = table.length := List.length_map _
  have below : j.toNat < (freqs table).length := by omega
  have below' : i.toNat < (freqs table).length := by omega
  rw [tableFreq, tableFreq, if_pos low, if_pos (low.trans le), List.getD_eq_getElem _ _ below,
    List.getD_eq_getElem _ _ below']
  obtain less | same := le.lt_or_eq
  · exact List.pairwise_iff_getElem.mp rising _ _ below' below (by omega)
  · simp [same]

theorem tableFreq_pos {table : List (Rat × Rat)} (positive : ∀ f ∈ freqs table, 0 < f) {i : Int}
    (low : 0 ≤ i) (high : i < table.length) : 0 < tableFreq table i := by
  have length : (freqs table).length = table.length := List.length_map _
  have below : i.toNat < (freqs table).length := by omega
  rw [tableFreq, if_pos low, List.getD_eq_getElem _ _ below]
  exact positive _ (List.getElem_mem below)

namespace CoreDvfs

/-- The frequency of the state nearest to an index (`getCoreFreq(int)`). -/
def getCoreFreqAt (index : Int) : Rat :=
  tableFreq coreVoltageFreq (clampIndex coreDvfsStates index)

theorem getCoreFreqAt_pos (index : Int) : 0 < getCoreFreqAt index := by
  have inside := clampIndex_inRange (by decide : (0 : Int) < coreDvfsStates) index
  exact tableFreq_pos (by decide +kernel) inside.1 inside.2

theorem getCoreFreqAt_mono {i j : Int} (le : i ≤ j) : getCoreFreqAt i ≤ getCoreFreqAt j := by
  have inside := clampIndex_inRange (by decide : (0 : Int) < coreDvfsStates)
  exact tableFreq_mono (by decide +kernel) (inside i).1 (clampIndex_mono (by decide) le)
    (inside j).2

/-- The time that work takes at another frequency (`GemDroidCore::getTimeEst`). -/
def getTimeEst (time oldFreq newFreq : Rat) : Rat :=
  time * (oldFreq / newFreq)

/--
The energy of work that took some time and power at the current frequency (`getEnergyEst`).

The frequency asked for is that of a row of the table.
-/
def getEnergyEst (time power newFreq : Rat) (c : CoreDvfs) : Rat :=
  let dynPower := power - coreStaticPwr
  -- The activity is the share of the dynamic power at the current frequency.
  let activity := dynPower / tableDynamicPower coreCapacitance coreVoltageFreq c.dvfsState
  let ind := (getIndexInTable coreVoltageFreq newFreq).getD 0
  let newTime := time * (c.getCoreFreq / newFreq)
  let newDynPower := activity * tableDynamicPower coreCapacitance coreVoltageFreq ind
  newTime * coreStaticPwr + newTime * newDynPower

end CoreDvfs

namespace IpDvfs

/-- The frequency of the state nearest to an index (`getIPFreq(int)`). -/
def getIPFreqAt (index : Int) : Rat :=
  tableFreq ipVoltageFreq (clampIndex ipDvfsStates index)

theorem getIPFreqAt_pos (index : Int) : 0 < getIPFreqAt index := by
  have inside := clampIndex_inRange (by decide : (0 : Int) < ipDvfsStates) index
  exact tableFreq_pos (by decide +kernel) inside.1 inside.2

theorem getIPFreqAt_mono {i j : Int} (le : i ≤ j) : getIPFreqAt i ≤ getIPFreqAt j := by
  have inside := clampIndex_inRange (by decide : (0 : Int) < ipDvfsStates)
  exact tableFreq_mono (by decide +kernel) (inside i).1 (clampIndex_mono (by decide) le)
    (inside j).2

/-- The time that work takes at another frequency (`GemDroidIP::getTimeEst`). -/
def getTimeEst (oldTime oldFreq newFreq : Rat) : Rat :=
  oldTime * oldFreq / newFreq

/--
The energy of work that took some time and power at the current frequency (`getEnergyEst`).

The frequency asked for is that of a row of the table.
-/
def getEnergyEst (time power newFreq : Rat) (ip : IpDvfs) : Rat :=
  let dynPower := power - ip.ipType.staticPower
  let activity := dynPower / tableDynamicPower ip.ipType.capacitance ipVoltageFreq ip.dvfsState
  let ind := (getIndexInTable ipVoltageFreq newFreq).getD 0
  let newTime := getTimeEst time ip.getIPFreq newFreq
  let newDynPower := activity * tableDynamicPower ip.ipType.capacitance ipVoltageFreq ind
  newTime * ip.ipType.staticPower + newTime * newDynPower

end IpDvfs

/-- The IPs that a flow of an application visits; each of them is a core or has an instance. -/
structure Flow where
  ips : List IpType
  instances : ∀ ip ∈ ips, ip ≠ .dma ∧ ip ≠ .cache

/--
What the governors read of the platform.

The frequency states are those of the first core and of the first instance of each IP.
-/
structure DvfsPlatform where
  numCpus : Nat
  governor : Governor
  /-- The application that runs on the first core, and its first flow. -/
  appId : Nat
  flow : Flow
  core : CoreDvfs
  ip : IpType → IpDvfs
  /-- The memory frequency now and when the last frame was measured. -/
  memFreq : Rat
  lastMemFreq : Rat
  /-- What each component took for the last frame. -/
  lastTimeTook : IpType → Rat
  lastPowerTook : IpType → Rat
  lastEnergyTook : IpType → Rat
  lastFrequency : IpType → Rat
  /-- The profile of the first core. -/
  profileMemFullStalls : Int
  profileRobFullStalls : Int
  profileActiveCycles : Int
  /-- The power and the traffic of the memory. -/
  memPowerIn1ms : Rat
  memBandwidth : Rat
  appMemReqs : Int
  dvfsPeriod : Rat

/-- The highest bandwidth in GB/s at a frequency in GHz (`getMaxBandwidth`). -/
def getMaxBandwidth (freq : Rat) : Rat :=
  64 * 2 * freq / 8

/-- The frequency for a bandwidth (`getFreqForBandwidth`). -/
def getFreqForBandwidth (bw : Rat) : Rat :=
  bw / 16

/-- The energy of the memory at another frequency (`GemDroidMemory::getEnergyEst`). -/
def memEnergyEst (currFreq currEnergy newFreq : Rat) : Rat :=
  currEnergy * (newFreq / currFreq)

/-- The time of a display or a camera at a bandwidth (`time_pred_coeffs`). -/
def deviceTime (bw : Rat) : Rat :=
  -115 / 10000 * bw * bw * bw + 3574 / 10000 * bw * bw + -38969 / 10000 * bw + 18473 / 1000

theorem deviceTime_anti {bw bw' : Rat} (le : bw ≤ bw') : deviceTime bw' ≤ deviceTime bw := by
  -- The difference is that of the bandwidths times a quadratic form without real zeros.
  have slope : 0 ≤ 115 / 10000 * (bw * bw + bw * bw' + bw' * bw') - 3574 / 10000 * (bw + bw') +
      38969 / 10000 := by
    nlinarith [sq_nonneg (bw - bw'), sq_nonneg (bw + bw' - 3574 / 10000 * 2 / (3 * (115 / 10000)))]
  have product := mul_nonneg (sub_nonneg.mpr le) slope
  unfold deviceTime
  nlinarith

namespace DvfsPlatform

/--
The share of the profiled cycles that waited for the memory (`getProfileFractionOfMemInst`).

The stalls are counted for each issue slot and the cycles once. Without a profile there is none.
-/
def getProfileFractionOfMemInst (p : DvfsPlatform) : Option Rat :=
  if p.profileActiveCycles = 0 then none
  else some ((p.profileMemFullStalls + p.profileRobFullStalls) / p.profileActiveCycles)

/-- The time of the core at another memory frequency (`memScaledTimeCPU`). -/
def memScaledTimeCPU (oldMemFreq newMemFreq : Rat) (p : DvfsPlatform) : Rat :=
  let memFraction := p.getProfileFractionOfMemInst.getD (20 / 100)
  let memTime := memFraction * p.lastTimeTook .cpu
  let computeTime := p.lastTimeTook .cpu - memTime
  computeTime + memTime * (oldMemFreq / newMemFreq)

/-- The time of an IP that processes data at a bandwidth and a frequency state. -/
def processingTime (typeOfIP : IpType) (availableBW : Rat) (ipFreqIndex : Int)
    (p : DvfsPlatform) : Rat :=
  let freq := IpDvfs.getIPFreqAt ipFreqIndex
  let baseTime := IpDvfs.getTimeEst (p.lastTimeTook typeOfIP) (p.lastFrequency typeOfIP) freq
  let ipBWRequirement :=
    typeOfIP.processingSize * cacheLineSize / (typeOfIP.processingLatency / freq)
  if ipBWRequirement < availableBW then baseTime else ipBWRequirement / availableBW * baseTime

/-- The time of an IP at a bandwidth and a frequency state (`memScaledTime`). -/
def memScaledTime (typeOfIP : IpType) (availableBW : Rat) (ipFreqIndex : Int)
    (p : DvfsPlatform) : Rat :=
  match typeOfIP with
  | .dc | .cam => deviceTime availableBW
  | .nw | .snd | .mic | .mmcIn | .mmcOut => p.lastTimeTook typeOfIP
  | .gpu =>
    let memTime := 30 / 100 * p.lastTimeTook .gpu
    let computeTime := p.lastTimeTook .gpu - memTime
    -- The memory frequency is that of the moment, not the one the time was measured at.
    computeTime + memTime * (p.memFreq / getFreqForBandwidth availableBW)
  -- The core is never asked for here.
  | .cpu | .vd | .ve | .ad | .ae | .img | .dma | .cache =>
    p.processingTime typeOfIP availableBW ipFreqIndex

/-- The bandwidth left for the application (`getAvailBW`). -/
def getAvailBW (p : DvfsPlatform) : Rat :=
  if p.numCpus = 1 then getMaxBandwidth p.memFreq
  else
    let appBW := p.appMemReqs * 64 / (p.dvfsPeriod * (1125 / 1000)) * 10
    getMaxBandwidth p.memFreq - p.memBandwidth + appBW

/-- Select a memory frequency, with the assertion of `setMemFreq`. -/
def setMemFreq (freq : Rat) (p : DvfsPlatform) : Except DvfsFault DvfsPlatform :=
  if minMemFreq - epsilon ≤ freq ∧ freq ≤ maxMemFreq + epsilon then .ok { p with memFreq := freq }
  else .error .memFreqOutOfRange

/-- Select a core state, with the assertion of `setCoreFreqInd`. -/
def setCoreFreqInd (index : Int) (p : DvfsPlatform) : Except DvfsFault DvfsPlatform :=
  if -1 < index ∧ index < coreDvfsStates then
    .ok { p with core := { p.core with dvfsState := index } }
  else .error .coreIndexOutOfRange

/-- Select a state of an IP, with the assertion of `setIPFreqInd`. -/
def setIPFreqInd (ip : IpType) (index : Int) (p : DvfsPlatform) : Except DvfsFault DvfsPlatform :=
  if -1 < index ∧ index < ipDvfsStates then
    .ok { p with ip := Function.update p.ip ip { p.ip ip with dvfsState := index } }
  else .error .ipIndexOutOfRange

/-- The IPs of the flow that are scaled, the core among them (`getIPAccsInFlow`). -/
def getIPAccsInFlow (p : DvfsPlatform) : List IpType :=
  p.flow.ips.filter fun ip => !ip.isDevice

/-- The devices of the flow (`getIPDevsInFlow`). -/
def getIPDevsInFlow (p : DvfsPlatform) : List IpType :=
  p.flow.ips.filter fun ip => ip.isDevice

end DvfsPlatform

/-- A frame of a video as it may have been measured on a platform with one core. -/
def videoFrame (memFreq : Rat) (flow : Flow) : DvfsPlatform where
  numCpus := 1
  governor := .slack
  appId := 0
  flow
  core := ⟨7, 0, 6, 0⟩
  ip t := ⟨t, 4, 0, 1, 0⟩
  memFreq
  lastMemFreq := memFreq
  lastTimeTook
    | .cpu => 4
    | _ => 2
  lastPowerTook _ := 1 / 2
  lastEnergyTook
    | .cpu => 2
    | _ => 1
  lastFrequency
    | .cpu => 1
    | _ => 6 / 10
  profileMemFullStalls := 0
  profileRobFullStalls := 0
  profileActiveCycles := 0
  memPowerIn1ms := 1 / 2
  memBandwidth := 1
  appMemReqs := 1000
  dvfsPeriod := 160000000

end GemDroid
