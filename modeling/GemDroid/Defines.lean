import Mathlib.Data.BitVec
import GemDroid.Lib.Rounding

/-! Constants, enumerations and the address type shared by the components of the platform. -/

namespace GemDroid

/-- A 64-bit memory address. -/
abbrev Addr := BitVec 64

/-- Bytes per cache line (`CACHE_LINE_SIZE`). -/
def cacheLineSize : Int := 64

/-- The address of the line that lies `i` lines after `base`. -/
def lineAddr (base : Addr) (i : Nat) : Addr :=
  base + 64#64 * BitVec.ofNat 64 i

/-- The first `n` line addresses from `base` on. -/
def lineAddrs (base : Addr) (n : Nat) : List Addr :=
  (List.range n).map (lineAddr base)

@[simp] theorem lineAddr_zero (base : Addr) : lineAddr base 0 = base := by
  simp [lineAddr]

theorem lineAddr_succ (base : Addr) (i : Nat) :
    lineAddr base i + 64#64 = lineAddr base (i + 1) := by
  -- The offset distributes over the sum, and the two sums associate.
  simp only [lineAddr, BitVec.ofNat_add, BitVec.mul_add, BitVec.add_assoc]
  rfl

theorem lineAddrs_succ (base : Addr) (n : Nat) :
    lineAddrs base (n + 1) = lineAddrs base n ++ [lineAddr base n] := by
  simp [lineAddrs, List.range_succ]

@[simp] theorem lineAddrs_length (base : Addr) (n : Nat) : (lineAddrs base n).length = n := by
  simp [lineAddrs]

/-- The kinds of components, in the order of `IP_TYPE`. -/
inductive IpType
  | cpu | dc | nw | snd | mic | cam | mmcIn | mmcOut
  | vd | ve | ad | ae | img | gpu | dma | cache
  deriving DecidableEq, Repr

/-- The number `IP_TYPE` gives a component. -/
def IpType.code : IpType → Int
  | .cpu => 0
  | .dc => 1
  | .nw => 2
  | .snd => 3
  | .mic => 4
  | .cam => 5
  | .mmcIn => 6
  | .mmcOut => 7
  | .vd => 8
  | .ve => 9
  | .ad => 10
  | .ae => 11
  | .img => 12
  | .gpu => 13
  | .dma => 14
  | .cache => 15

/-- The number one past the last component (`IP_TYPE_END`), used as "no flow type". -/
def ipTypeEnd : Int := 16

/-- The frequency governors, in the order of `GOVERNOR_TYPE`. -/
inductive Governor
  | disabled | ondemand | performance | powersave | building | interactive | powercap
  | slack | slackFarEnergy | slackKnapsack | slackMaxEnergyConsumer | slackMaxPowerConsumer
  | slackMaxEnergyPerTimeConsumer | coscale | memscale | optimal | dynamicProg | coreOracle
  deriving DecidableEq, Repr

/-- The platform clock in GHz (`GEMDROID_FREQ`). -/
def gemdroidFreq : Rat := 10

/-- Number of frequency states of a core (`CORE_DVFS_STATES`). -/
def coreDvfsStates : Int := 13

/-- Number of frequency states of an IP (`IP_DVFS_STATES`). -/
def ipDvfsStates : Int := 7

/-- Epochs the interactive governor stays at the top (`INTERACTIVE_GOVERNOR_LAT`). -/
def interactiveGovernorLat : Int := 5

/-- Bytes of one display frame (`FRAME_SIZE`). -/
def frameSize : Int := (4096 * 2160 * 24) / 8

/-- Bytes of one audio frame (`AUD_FRAME_SIZE`). -/
def audFrameSize : Int := 16 * 1024

/-- Compression ratio of video data (`VID_CODING_RATIO`). -/
def vidCodingRatio : Int := 16

/-- Compression ratio of audio data (`AUD_CODING_RATIO`). -/
def audCodingRatio : Int := 8

/-- Most requests the agent holds for the memory (`MAX_MEM_REQS`). -/
def maxMemReqs : Nat := 256

/-- Share of them the IPs may take, a fraction (`MAX_IP_MEM_REQS`). -/
def maxIpMemReqs : Rat := 256 * (9 / 10)

/-- Most responses the agent holds before it refuses requests (`MAX_MEM_RESPS`). -/
def maxMemResps : Nat := 256

/-- Most calls queued for one kind of IP (`MAX_IP_OUTSTANDING_REQS`). -/
def maxIpOutstandingReqs : Nat := 10

/-- Agent cycles a read response occupies (`MEM_RESP_TRANSMIT_CYCLES`). -/
def memRespTransmitCycles : Int := 2

/-- Base addresses of the IPs' memory regions (`*_ADDR_START`), zero for those without one. -/
def IpType.addrStart : IpType → Int
  | .dc => 2160000000
  | .cam => 2180000000
  | .vd => 2200000000
  | .ve => 2220000000
  | .img => 2240000000
  | .ae => 2260000000
  | .nw => 2280000000
  | .snd => 2300000000
  | .ad => 2320000000
  | .mmcIn => 2340000000
  | .mic => 2360000000
  | .mmcOut => 2380000000
  | .gpu => 2420000000
  | .cpu | .dma | .cache => 0

/-- Base address of the second display controller (`DC1_ADDR_START`). -/
def dc1AddrStart : Int := 2400000000

end GemDroid
